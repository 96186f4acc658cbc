import Reckon.Error

/-!
# Outcomes

How a computation that may fail came to its result or why it failed, and when two such computations
come to the same result unless one of them meets a limit.
-/

namespace Reckon

/-- Outcomes can be compared. -/
instance decidableEqExcept {ε α : Type} [DecidableEq ε] [DecidableEq α] :
    DecidableEq (Except ε α)
  | .ok a, .ok b => decidable_of_iff (a = b) ⟨congrArg _, Except.ok.inj⟩
  | .error cause, .error cause' =>
    decidable_of_iff (cause = cause') ⟨congrArg _, Except.error.inj⟩
  | .ok _, .error _ => isFalse nofun
  | .error _, .ok _ => isFalse nofun

/-- A sequence of two steps succeeds when both do. -/
theorem bind_eq_ok {ε α β : Type} {x : Except ε α} {f : α → Except ε β} {b : β} :
    (x >>= f) = .ok b ↔ ∃ a, x = .ok a ∧ f a = .ok b := by
  cases x with
  | error cause =>
    refine ⟨fun h => ?_, fun ⟨a, ha, _⟩ => ?_⟩
    · contradiction
    · contradiction
  | ok a => exact ⟨fun h => ⟨a, rfl, h⟩, fun ⟨a', ha, h⟩ => Except.ok.inj ha ▸ h⟩

/-- A sequence of two steps fails when the first one does, or the second one after it. -/
theorem bind_eq_error {ε α β : Type} {x : Except ε α} {f : α → Except ε β} {cause : ε} :
    (x >>= f) = .error cause ↔ x = .error cause ∨ ∃ a, x = .ok a ∧ f a = .error cause := by
  cases x with
  | error cause' =>
    refine ⟨fun h => .inl (congrArg Except.error (Except.error.inj h)), ?_⟩
    rintro (h | ⟨a, ha, -⟩)
    · exact congrArg Except.error (Except.error.inj h)
    · contradiction
  | ok a =>
    refine ⟨fun h => .inr ⟨a, rfl, h⟩, ?_⟩
    rintro (h | ⟨a', ha, h⟩)
    · contradiction
    · exact Except.ok.inj ha ▸ h

/-- Giving a failure another form makes no success. -/
theorem mapError_eq_ok {ε ε' α : Type} {x : Except ε α} {f : ε → ε'} {a : α} :
    x.mapError f = .ok a ↔ x = .ok a := by
  cases x with
  | error cause => exact ⟨nofun, nofun⟩
  | ok b =>
    refine ⟨fun h => ?_, fun h => ?_⟩
    · exact congrArg Except.ok (Except.ok.inj h)
    · exact congrArg Except.ok (Except.ok.inj h)

/-- What fails fails for a cause of its own, in another form. -/
theorem mapError_eq_error {ε ε' α : Type} {x : Except ε α} {f : ε → ε'} {cause : ε'} :
    x.mapError f = .error cause ↔ ∃ reason, x = .error reason ∧ f reason = cause := by
  cases x with
  | error reason =>
    refine ⟨fun h => ⟨reason, rfl, Except.error.inj h⟩, ?_⟩
    rintro ⟨reason', h, rfl⟩
    rw [Except.error.inj h]
    rfl
  | ok a =>
    refine ⟨fun h => ?_, fun ⟨reason, h, _⟩ => ?_⟩
    · contradiction
    · contradiction

theorem toOption_eq_some {ε α : Type} {x : Except ε α} {a : α} :
    x.toOption = some a ↔ x = .ok a := by
  cases x <;> simp [Except.toOption]

theorem toOption_bind {ε α β : Type} (x : Except ε α) (f : α → Except ε β) :
    (x >>= f).toOption = x.toOption.bind fun a => (f a).toOption := by
  cases x <;> rfl

theorem toOption_mapError {ε ε' α : Type} (x : Except ε α) (f : ε → ε') :
    (x.mapError f).toOption = x.toOption := by
  cases x <;> rfl

theorem ne_error_of_toBool {ε α : Type} {x : Except ε α} (h : x.toBool = true) (cause : ε) :
    x ≠ .error cause := by
  rintro rfl
  contradiction

/-! ## Why a computation fails -/

/-- The cause for which a computation fails, if it does. -/
def failure? {ε α : Type} : Except ε α → Option ε
  | .ok _ => none
  | .error cause => some cause

theorem failure?_eq_some {ε α : Type} {x : Except ε α} {cause : ε} :
    failure? x = some cause ↔ x = .error cause := by
  cases x <;> simp [failure?]

theorem failure?_eq_none {ε α : Type} {x : Except ε α} :
    failure? x = none ↔ ∃ a, x = .ok a := by
  cases x <;> simp [failure?]

/-- If it does not hang on the first of two steps why the second one fails, the first failure is
that of the sequence. -/
theorem failure?_bind {ε α β : Type} {x : Except ε α} {f : α → Except ε β} {second : Option ε}
    (h : ∀ a, failure? (f a) = second) : failure? (x >>= f) = (failure? x).or second := by
  cases x with
  | error cause => rfl
  | ok a => exact h a

/-- A last step that cannot fail changes no failure. -/
theorem failure?_bind_ok {ε α β : Type} (x : Except ε α) (f : α → β) :
    failure? (x >>= fun a => pure (f a)) = failure? x := by
  cases x <;> rfl

theorem failure?_bind_bind_ok {ε α β γ : Type} (x : Except ε α) (y : Except ε β) (f : α → β → γ) :
    failure? (x >>= fun a => y >>= fun b => pure (f a b)) = (failure? x).or (failure? y) :=
  failure?_bind fun a => failure?_bind_ok y (f a)

/-! ## The same outcome up to some failures -/

/-- Whether a computation comes to the same end as another one, unless it fails for a cause of a
given kind. -/
def UpTo {ε α : Type} (kind : ε → Prop) (x y : Except ε α) : Prop :=
  x = y ∨ ∃ cause, kind cause ∧ x = .error cause

namespace UpTo

variable {ε α β : Type} {kind : ε → Prop}

theorem refl (x : Except ε α) : UpTo kind x x := .inl rfl

theorem of_error {cause : ε} (h : kind cause) (y : Except ε α) : UpTo kind (.error cause) y :=
  .inr ⟨cause, h, rfl⟩

theorem bind {x y : Except ε α} {f g : α → Except ε β} (h : UpTo kind x y)
    (hnext : ∀ a, UpTo kind (f a) (g a)) : UpTo kind (x >>= f) (y >>= g) := by
  obtain rfl | ⟨cause, hcause, rfl⟩ := h
  · cases x with
    | error cause => exact refl _
    | ok a => exact hnext a
  · exact of_error hcause _

theorem mapError {ε' : Type} {kind' : ε' → Prop} {x y : Except ε α} {f : ε → ε'}
    (h : UpTo kind x y) (hf : ∀ cause, kind cause → kind' (f cause)) :
    UpTo kind' (x.mapError f) (y.mapError f) := by
  obtain rfl | ⟨cause, hcause, rfl⟩ := h
  · exact refl _
  · exact of_error (hf cause hcause) _

/-- Two steps succeed together if each of them does, up to failures of the given kind. -/
theorem exists_ok_bind {x : Except ε α} {f : α → Except ε β} (h : ∃ a, UpTo kind x (.ok a))
    (hnext : ∀ a, ∃ b, UpTo kind (f a) (.ok b)) : ∃ b, UpTo kind (x >>= f) (.ok b) := by
  obtain ⟨a, hx⟩ := h
  obtain ⟨b, ha⟩ := hnext a
  obtain rfl | ⟨cause, hcause, rfl⟩ := hx
  · exact ⟨b, ha⟩
  · exact ⟨b, of_error hcause _⟩

/-- Without a failure of the given kind the ends are the same. -/
theorem eq_of_not {x y : Except ε α} (h : UpTo kind x y)
    (hx : ∀ cause, kind cause → x ≠ .error cause) : x = y := by
  obtain rfl | ⟨cause, hcause, rfl⟩ := h
  · rfl
  · exact absurd rfl (hx cause hcause)

end UpTo

/-! ## Related outcomes up to some failures -/

/-- Whether two computations succeed with related results or fail for the same cause, unless one of
them fails for a cause of a given kind. -/
inductive Alike {ε α β : Type} (kind : ε → Prop) (R : α → β → Prop) :
    Except ε α → Except ε β → Prop where
  | ok {a : α} {b : β} (h : R a b) : Alike kind R (.ok a) (.ok b)
  | error (cause : ε) : Alike kind R (.error cause) (.error cause)
  | left {cause : ε} (h : kind cause) (y : Except ε β) : Alike kind R (.error cause) y
  | right {cause : ε} (h : kind cause) (x : Except ε α) : Alike kind R x (.error cause)

namespace Alike

variable {ε α β α' β' : Type} {kind : ε → Prop} {R : α → β → Prop} {S : α' → β' → Prop}

theorem refl (x : Except ε α) : Alike kind Eq x x := by
  cases x with
  | ok a => exact .ok rfl
  | error cause => exact .error cause

theorem bind {x : Except ε α} {y : Except ε β} {f : α → Except ε α'} {g : β → Except ε β'}
    (h : Alike kind R x y) (hnext : ∀ a b, R a b → Alike kind S (f a) (g b)) :
    Alike kind S (x >>= f) (y >>= g) := by
  cases h with
  | ok h => exact hnext _ _ h
  | error cause => exact .error cause
  | left h => exact .left h _
  | right h => exact .right h _

theorem map {x : Except ε α} {y : Except ε β} {f : α → α'} {g : β → β'} (h : Alike kind R x y)
    (hnext : ∀ a b, R a b → S (f a) (g b)) : Alike kind S (f <$> x) (g <$> y) := by
  cases h with
  | ok h => exact .ok (hnext _ _ h)
  | error cause => exact .error cause
  | left h => exact .left h _
  | right h => exact .right h _

theorem map_left {T : α' → β → Prop} {x : Except ε α} {y : Except ε β} {f : α → α'}
    (h : Alike kind R x y) (hnext : ∀ a b, R a b → T (f a) b) : Alike kind T (f <$> x) y := by
  rw [← id_map y]
  exact h.map hnext

theorem map_right {T : α → β' → Prop} {x : Except ε α} {y : Except ε β} {g : β → β'}
    (h : Alike kind R x y) (hnext : ∀ a b, R a b → T a (g b)) : Alike kind T x (g <$> y) := by
  rw [← id_map x]
  exact h.map hnext

theorem mono {T : α → β → Prop} {x : Except ε α} {y : Except ε β} (h : Alike kind R x y)
    (hnext : ∀ a b, R a b → T a b) : Alike kind T x y := by
  rw [← id_map x]
  exact h.map_left hnext

theorem mapError {ε' : Type} {kind' : ε' → Prop} {x : Except ε α} {y : Except ε β} {f : ε → ε'}
    (h : Alike kind R x y) (hf : ∀ cause, kind cause → kind' (f cause)) :
    Alike kind' R (x.mapError f) (y.mapError f) := by
  cases h with
  | ok h => exact .ok h
  | error cause => exact .error _
  | left h => exact .left (hf _ h) _
  | right h => exact .right (hf _ h) _

theorem of_upTo {x y : Except ε α} (h : UpTo kind x y) : Alike kind Eq x y := by
  obtain rfl | ⟨cause, hcause, rfl⟩ := h
  · exact refl _
  · exact .left hcause _

theorem of_upTo_swap {x y : Except ε α} (h : UpTo kind y x) : Alike kind Eq x y := by
  obtain rfl | ⟨cause, hcause, rfl⟩ := h
  · exact refl _
  · exact .right hcause _

/-- Without a failure of the given kind, equal outcomes. -/
theorem eq_of_not {x y : Except ε α} (h : Alike kind Eq x y)
    (hx : ∀ cause, kind cause → x ≠ .error cause) (hy : ∀ cause, kind cause → y ≠ .error cause) :
    x = y := by
  cases h with
  | ok h => rw [h]
  | error cause => rfl
  | left h => exact absurd rfl (hx _ h)
  | right h => exact absurd rfl (hy _ h)

end Alike

/-! ## Failures because of a limit -/

/-- Whether tokens nest too deep. -/
def GroupError.IsTooDeep : GroupError → Prop
  | .tooDeep _ _ => True
  | _ => False

/-- Whether a tree nests too deep. -/
def ParseError.IsTooDeep : ParseError → Prop
  | .tooDeep _ => True
  | _ => False

/-- Whether too many nodes are open at a time. -/
def EvalError.IsTooDeep : EvalError → Prop
  | .tooDeep _ => True
  | _ => False

/-- Whether a line fails because of a limit. -/
def Error.IsTooDeep : Error → Prop
  | .lex _ => False
  | .group cause => cause.IsTooDeep
  | .parse cause => cause.IsTooDeep
  | .eval cause => cause.IsTooDeep

end Reckon
