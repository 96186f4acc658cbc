import Reckon.Proofs.Grammar.Basic

/-!
# A line has one derivation

Read from the left, the next token always tells how a derivation goes on: `^` continues a power,
`*`, `/` and an operand without a sign continue a term, an operand with a sign opens a term, and a
closing bracket or the end of the line ends a sum. So two derivations of tokens that go on in an
admissible way are the same (`Sum.unique`).
-/

namespace Reckon.Grammar

/-- Whether a token of this kind can start an operand. -/
def startsOperand : Token.Kind → Bool
  | .number _ | .var _ | .function _ | .openBracket => true
  | _ => false

/-! ## First tokens -/

theorem Operand.exists_head {ts : List Token} (a : Operand ts) :
    ∃ t rest, ts = t :: rest ∧ startsOperand t.kind = true := by
  cases a with
  | number value h => exact ⟨_, _, rfl, by rw [h]; rfl⟩
  | var name h => exact ⟨_, _, rfl, by rw [h]; rfl⟩
  | bracket ho level hc => exact ⟨_, _, rfl, by rw [ho]; rfl⟩
  | call name h argument => exact ⟨_, _, rfl, by rw [h]; rfl⟩

theorem Power.exists_head {ts : List Token} (p : Power ts) :
    ∃ t rest, ts = t :: rest ∧ startsOperand t.kind = true := by
  obtain ⟨base, exponents⟩ := p
  obtain ⟨t, rest, rfl, h⟩ := base.exists_head
  exact ⟨t, _, rfl, h⟩

theorem Term.exists_head {ts : List Token} (t : Term ts) :
    ∃ t rest, ts = t :: rest ∧ startsOperand t.kind = true := by
  obtain ⟨first, factors⟩ := t
  obtain ⟨t, rest, rfl, h⟩ := first.exists_head
  exact ⟨t, _, rfl, h⟩

theorem Factor.exists_head {ts : List Token} (f : Factor ts) :
    ∃ t rest, ts = t :: rest ∧ (t.kind = .times ∨ t.kind = .divide ∨
      (startsOperand t.kind = true ∧ t.explicitSign = false)) := by
  cases f with
  | times h power => exact ⟨_, _, rfl, .inl h⟩
  | divide h power => exact ⟨_, _, rfl, .inr (.inl h)⟩
  | next h power =>
    obtain ⟨t, rest, rfl, ht⟩ := power.exists_head
    exact ⟨t, rest, rfl, .inr (.inr ⟨ht, h⟩)⟩

/-! ## What may follow -/

/-- A power ends here. -/
def EndsPower (rest : List Token) : Prop := ∀ t ∈ rest.head?, t.kind ≠ .power

/-- A term ends here. -/
def EndsTerm (rest : List Token) : Prop :=
  ∀ t ∈ rest.head?, t.kind ≠ .power ∧ t.kind ≠ .times ∧ t.kind ≠ .divide ∧
    (startsOperand t.kind = true → t.explicitSign = true)

/-- A sum ends here. -/
def EndsSum (rest : List Token) : Prop := ∀ t ∈ rest.head?, t.kind = .closeBracket

theorem EndsTerm.endsPower {rest : List Token} (h : EndsTerm rest) : EndsPower rest :=
  fun t ht => (h t ht).1

theorem EndsSum.endsTerm {rest : List Token} (h : EndsSum rest) : EndsTerm rest := by
  intro t ht
  rw [h t ht]
  exact ⟨nofun, nofun, nofun, nofun⟩

/-- A power ends before the further factors of its term. -/
theorem Factors.endsPower {us rest : List Token} (fs : Factors us) (h : EndsTerm rest) :
    EndsPower (us ++ rest) := by
  cases fs with
  | nil => exact h.endsPower
  | cons factor others =>
    obtain ⟨t, behind, rfl, ht⟩ := factor.exists_head
    intro s hs
    obtain rfl := Option.some.inj hs
    intro hpower
    rw [hpower] at ht
    rcases ht with ht | ht | ⟨ht, -⟩ <;> contradiction

/-- A term ends before the further terms of its sum. -/
theorem Addends.endsTerm {us rest : List Token} (as : Addends us) (h : EndsSum rest) :
    EndsTerm (us ++ rest) := by
  cases as with
  | nil => exact h.endsTerm
  | cons hsign term others =>
    obtain ⟨t, behind, rfl, ht⟩ := term.exists_head
    intro s hs
    obtain rfl := Option.some.inj hs
    refine ⟨?_, ?_, ?_, fun _ => hsign⟩
    all_goals
      intro hkind
      rw [hkind] at ht
      contradiction

/-! ## Uniqueness -/

theorem head?_of_append {t : Token} {r us r' : List Token} (h : [] ++ r = t :: us ++ r') :
    t ∈ r.head? := by
  rw [List.nil_append] at h
  rw [h]
  rfl

theorem kind_eq_of_cons {t s : Token} {ts us r r' : List Token}
    (h : t :: ts ++ r = s :: us ++ r') : t.kind = s.kind :=
  congrArg Token.kind (List.cons.inj h).1

mutual

/-- No operand is a proper part of the beginning of another one. -/
theorem Operand.unique {ts us r r' : List Token} (a : Operand ts) (b : Operand us)
    (h : ts ++ r = us ++ r') : ∃ e : ts = us, e ▸ a = b := by
  match a with
  | .number value ha =>
    cases b with
    | number value' hb =>
      obtain ⟨rfl, -⟩ := List.cons.inj h
      obtain rfl := Token.Kind.number.inj (ha.symm.trans hb)
      exact ⟨rfl, rfl⟩
    | var _ hb | bracket hb _ _ | call _ hb _ =>
      exact absurd (ha.symm.trans ((kind_eq_of_cons h).trans hb)) nofun
  | .var name ha =>
    cases b with
    | var name' hb =>
      obtain ⟨rfl, -⟩ := List.cons.inj h
      obtain rfl := Token.Kind.var.inj (ha.symm.trans hb)
      exact ⟨rfl, rfl⟩
    | number _ hb | bracket hb _ _ | call _ hb _ =>
      exact absurd (ha.symm.trans ((kind_eq_of_cons h).trans hb)) nofun
  | .bracket ha level hc =>
    cases b with
    | bracket hb level' hc' =>
      obtain ⟨rfl, hrest⟩ := List.cons.inj h
      rw [List.append_eq, List.append_eq, List.append_assoc, List.append_assoc] at hrest
      obtain ⟨rfl, rfl⟩ := Sum.unique level level' (by simpa [EndsSum] using hc)
        (by simpa [EndsSum] using hc') hrest
      obtain ⟨rfl, -⟩ := List.cons.inj (List.append_cancel_left hrest)
      exact ⟨rfl, rfl⟩
    | number _ hb | var _ hb | call _ hb _ =>
      exact absurd (ha.symm.trans ((kind_eq_of_cons h).trans hb)) nofun
  | .call name ha argument =>
    cases b with
    | call name' hb argument' =>
      obtain ⟨rfl, hrest⟩ := List.cons.inj h
      obtain rfl := Token.Kind.function.inj (ha.symm.trans hb)
      obtain ⟨rfl, rfl⟩ := Operand.unique argument argument' hrest
      exact ⟨rfl, rfl⟩
    | number _ hb | var _ hb | bracket hb _ _ =>
      exact absurd (ha.symm.trans ((kind_eq_of_cons h).trans hb)) nofun
termination_by structural a

theorem Power.unique {ts us r r' : List Token} (a : Power ts) (b : Power us) (hr : EndsPower r)
    (hr' : EndsPower r') (h : ts ++ r = us ++ r') : ∃ e : ts = us, e ▸ a = b := by
  match a, b with
  | .mk base exponents, .mk base' exponents' =>
    rw [List.append_assoc, List.append_assoc] at h
    obtain ⟨rfl, rfl⟩ := Operand.unique base base' h
    obtain ⟨rfl, rfl⟩ := Exponents.unique exponents exponents' hr hr' (List.append_cancel_left h)
    exact ⟨rfl, rfl⟩
termination_by structural a

theorem Exponents.unique {ts us r r' : List Token} (a : Exponents ts) (b : Exponents us)
    (hr : EndsPower r) (hr' : EndsPower r') (h : ts ++ r = us ++ r') :
    ∃ e : ts = us, e ▸ a = b := by
  match a, b with
  | .nil, .nil => exact ⟨rfl, rfl⟩
  | .nil, .cons hb _ _ => exact absurd hb (hr _ (head?_of_append h))
  | .cons ha _ _, .nil => exact absurd ha (hr' _ (head?_of_append h.symm))
  | .cons ha exponent rest, .cons hb exponent' rest' =>
    obtain ⟨rfl, hrest⟩ := List.cons.inj h
    rw [List.append_eq, List.append_eq, List.append_assoc, List.append_assoc] at hrest
    obtain ⟨rfl, rfl⟩ := Operand.unique exponent exponent' hrest
    obtain ⟨rfl, rfl⟩ := Exponents.unique rest rest' hr hr' (List.append_cancel_left hrest)
    exact ⟨rfl, rfl⟩
termination_by structural a

theorem Factor.unique {ts us r r' : List Token} (a : Factor ts) (b : Factor us) (hr : EndsPower r)
    (hr' : EndsPower r') (h : ts ++ r = us ++ r') : ∃ e : ts = us, e ▸ a = b := by
  match a, b with
  | .times ha power, .times hb power' =>
    obtain ⟨rfl, hrest⟩ := List.cons.inj h
    obtain ⟨rfl, rfl⟩ := Power.unique power power' hr hr' hrest
    exact ⟨rfl, rfl⟩
  | .divide ha power, .divide hb power' =>
    obtain ⟨rfl, hrest⟩ := List.cons.inj h
    obtain ⟨rfl, rfl⟩ := Power.unique power power' hr hr' hrest
    exact ⟨rfl, rfl⟩
  | .next ha power, .next hb power' =>
    obtain ⟨rfl, rfl⟩ := Power.unique power power' hr hr' h
    exact ⟨rfl, rfl⟩
  | .times ha _, .divide hb _ =>
    exact absurd (ha.symm.trans ((kind_eq_of_cons h).trans hb)) nofun
  | .divide ha _, .times hb _ =>
    exact absurd (ha.symm.trans ((kind_eq_of_cons h).trans hb)) nofun
  | .times ha _, .next _ power | .divide ha _, .next _ power =>
    obtain ⟨t, rest, rfl, ht⟩ := power.exists_head
    rw [← kind_eq_of_cons h, ha] at ht
    contradiction
  | .next _ power, .times hb _ | .next _ power, .divide hb _ =>
    obtain ⟨t, rest, rfl, ht⟩ := power.exists_head
    rw [kind_eq_of_cons h, hb] at ht
    contradiction
termination_by structural a

theorem Factors.unique {ts us r r' : List Token} (a : Factors ts) (b : Factors us)
    (hr : EndsTerm r) (hr' : EndsTerm r') (h : ts ++ r = us ++ r') : ∃ e : ts = us, e ▸ a = b := by
  match a, b with
  | .nil, .nil => exact ⟨rfl, rfl⟩
  | .nil, .cons factor _ =>
    obtain ⟨t, rest, rfl, ht⟩ := factor.exists_head
    obtain ⟨-, htimes, hdivide, hsign⟩ := hr t (head?_of_append h)
    simp_all
  | .cons factor _, .nil =>
    obtain ⟨t, rest, rfl, ht⟩ := factor.exists_head
    obtain ⟨-, htimes, hdivide, hsign⟩ := hr' t (head?_of_append h.symm)
    simp_all
  | .cons factor rest, .cons factor' rest' =>
    rw [List.append_assoc, List.append_assoc] at h
    obtain ⟨rfl, rfl⟩ := Factor.unique factor factor' (rest.endsPower hr) (rest'.endsPower hr') h
    obtain ⟨rfl, rfl⟩ := Factors.unique rest rest' hr hr' (List.append_cancel_left h)
    exact ⟨rfl, rfl⟩
termination_by structural a

theorem Term.unique {ts us r r' : List Token} (a : Term ts) (b : Term us) (hr : EndsTerm r)
    (hr' : EndsTerm r') (h : ts ++ r = us ++ r') : ∃ e : ts = us, e ▸ a = b := by
  match a, b with
  | .mk first factors, .mk first' factors' =>
    rw [List.append_assoc, List.append_assoc] at h
    obtain ⟨rfl, rfl⟩ :=
      Power.unique first first' (factors.endsPower hr) (factors'.endsPower hr') h
    obtain ⟨rfl, rfl⟩ := Factors.unique factors factors' hr hr' (List.append_cancel_left h)
    exact ⟨rfl, rfl⟩
termination_by structural a

theorem Addends.unique {ts us r r' : List Token} (a : Addends ts) (b : Addends us)
    (hr : EndsSum r) (hr' : EndsSum r') (h : ts ++ r = us ++ r') : ∃ e : ts = us, e ▸ a = b := by
  match a, b with
  | .nil, .nil => exact ⟨rfl, rfl⟩
  | .nil, .cons _ term _ =>
    obtain ⟨t, rest, rfl, ht⟩ := term.exists_head
    rw [hr t (head?_of_append h)] at ht
    contradiction
  | .cons _ term _, .nil =>
    obtain ⟨t, rest, rfl, ht⟩ := term.exists_head
    rw [hr' t (head?_of_append h.symm)] at ht
    contradiction
  | .cons _ term rest, .cons _ term' rest' =>
    rw [List.append_assoc, List.append_assoc] at h
    obtain ⟨rfl, rfl⟩ := Term.unique term term' (rest.endsTerm hr) (rest'.endsTerm hr') h
    obtain ⟨rfl, rfl⟩ := Addends.unique rest rest' hr hr' (List.append_cancel_left h)
    exact ⟨rfl, rfl⟩
termination_by structural a

/-- Two sums that end where they may end are the same as soon as their tokens are. -/
theorem Sum.unique {ts us r r' : List Token} (a : Sum ts) (b : Sum us) (hr : EndsSum r)
    (hr' : EndsSum r') (h : ts ++ r = us ++ r') : ∃ e : ts = us, e ▸ a = b := by
  match a, b with
  | .empty, .empty => exact ⟨rfl, rfl⟩
  | .empty, .terms first _ =>
    obtain ⟨t, rest, rfl, ht⟩ := first.exists_head
    rw [hr t (head?_of_append h)] at ht
    contradiction
  | .terms first _, .empty =>
    obtain ⟨t, rest, rfl, ht⟩ := first.exists_head
    rw [hr' t (head?_of_append h.symm)] at ht
    contradiction
  | .terms first rest, .terms first' rest' =>
    rw [List.append_assoc, List.append_assoc] at h
    obtain ⟨rfl, rfl⟩ := Term.unique first first' (rest.endsTerm hr) (rest'.endsTerm hr') h
    obtain ⟨rfl, rfl⟩ := Addends.unique rest rest' hr hr' (List.append_cancel_left h)
    exact ⟨rfl, rfl⟩
termination_by structural a

end

/-- A line has at most one derivation. -/
theorem Sum.subsingleton (tokens : List Token) : Subsingleton (Sum tokens) := by
  refine ⟨fun a b => ?_⟩
  have hend : EndsSum [] := by simp [EndsSum]
  obtain ⟨_, h⟩ := Sum.unique a b hend hend rfl
  exact h

end Reckon.Grammar
