import Reckon.Proofs.Eval.Pure
import Reckon.Proofs.Number.Arithmetic
import Reckon.Proofs.Written.Normal

/-!
# Values of normal forms

Brackets that an expression did not have are sums of their own, and a sum starts from zero:
products, powers and arguments lose the sign of a negative zero when they are written and read back.
In a sum and in a product this makes no difference, but powers and functions may tell the two zeros
apart. `Rules.cleared` evaluates an expression without these signs, and its normal form has this
value (`Rules.clears`).
-/

namespace Reckon

open Decimal (unsignedZero)

namespace Expr

/-- The value of an expression that stands in brackets of its own if it is a product or a power. -/
def bracketed : Expr → Float → Float
  | product _ _, x | power _ _, x => unsignedZero x
  | _, x => x

theorem unsignedZero_bracketed (e : Expr) (x : Float) :
    unsignedZero (e.bracketed x) = unsignedZero x := by
  cases e with
  | product factors sign => exact Decimal.unsignedZero_of_ne (Decimal.unsignedZero_ne x)
  | power operands sign => exact Decimal.unsignedZero_of_ne (Decimal.unsignedZero_ne x)
  | literal x sign | var name sign | call function argument sign | sum terms sign => rfl

/-- A sum does not depend on the brackets of its terms. -/
theorem add_bracketed {total : Float} (h : total ≠ -0) (e : Expr) (x : Float) :
    total + e.bracketed x = total + x := by
  rw [← Decimal.add_unsignedZero h (e.bracketed x), unsignedZero_bracketed,
    Decimal.add_unsignedZero h]

/-- What a digit over zero comes to. -/
def overZero (digit : Float) : Float := unsignedZero (digit * (0 : Float).pow (-1))

/-- What a number comes to as it is written: the ones without a numeral are quotients. -/
def writtenNumber (x : Float) : Float :=
  if x.isNaN then overZero 0
  else if x.isInf then (if x < 0 then Sign.negative else .positive).apply (overZero 1)
  else x

theorem normals_eq_map (es : List Expr) : normals es = es.map normal := by
  induction es with
  | nil => rfl
  | cons e es ih => rw [normals, ih, List.map_cons]

end Expr

/-- Evaluates arguments in brackets, operands of powers in the brackets of a product or power, and
what a variable is bound to as it is, since that is not written. -/
def Below.written (value cleared : Expr → Except EvalError Float) : Below where
  binding := value
  argument e := unsignedZero <$> cleared e
  operand e := e.bracketed <$> cleared e
  part := cleared

namespace Rules

/-- The value of an expression without the signs of zeros that are lost when it is written. -/
def cleared (rules : Rules) : Nat → Expr → Except EvalError Float
  | 0, _ => .error (.tooDeep rules.limit)
  | _ + 1, .literal x sign => .ok (Expr.writtenNumber (sign.apply x))
  | fuel + 1, e => rules.ofNode (.written (rules.value fuel) (rules.cleared fuel)) e

variable (rules : Rules)

/-! ## Folding related values -/

theorem foldValues_alike {kind : EvalError → Prop} {S : Float → Float → Prop}
    {op : Float → Float → Float} {below below' : Expr → Except EvalError Float} (f : Expr → Expr)
    {es : List Expr}
    (h : ∀ e ∈ es, ∀ total total', S total total' →
      Alike kind S (op total <$> below (f e)) (op total' <$> below' e))
    {start start' : Float} (hstart : S start start') :
    Alike kind S (foldValues op start below (es.map f)) (foldValues op start' below' es) := by
  induction es generalizing start start' with
  | nil => exact .ok hstart
  | cons e es ih =>
    rw [List.forall_mem_cons] at h
    rw [foldValues, foldValues, List.map_cons, List.foldlM_cons, List.foldlM_cons]
    exact (h.1 _ _ hstart).bind fun total total' htotal => ih h.2 htotal

theorem stacked_map (f : Expr → Expr) (operands : List Expr) :
    stacked (operands.map f) = (fun tower => (f tower.1, tower.2.map f)) <$> stacked operands := by
  rw [stacked, stacked, ← List.map_reverse, List.length_map]
  rcases operands.reverse with _ | ⟨top, _ | ⟨base, bases⟩⟩ <;> rfl

/-! ## Failures stay -/

/-- Whether two evaluations either both succeed or fail for the same cause. -/
abbrev FailsLike (x y : Except EvalError Float) : Prop :=
  Alike (fun _ => False) (fun _ _ => True) x y

theorem foldValues_failsLike {below below' : Expr → Except EvalError Float}
    (h : ∀ e, FailsLike (below e) (below' e)) (op : Float → Float → Float) (start start' : Float)
    (es : List Expr) :
    FailsLike (foldValues op start below es) (foldValues op start' below' es) := by
  have hfold : FailsLike (foldValues op start below (es.map id)) (foldValues op start' below' es) :=
    foldValues_alike id (fun e _ _ _ _ => (h e).map fun _ _ _ => trivial) trivial
  rwa [List.map_id] at hfold

theorem FailsLike.map {x y : Except EvalError Float} (h : FailsLike x y) (f : Float → Float) :
    FailsLike (f <$> x) y := Alike.map_left h fun _ _ _ => trivial

theorem ofNode_failsLike {value cleared : Expr → Except EvalError Float}
    (h : ∀ e, FailsLike (cleared e) (value e)) (e : Expr) :
    FailsLike (rules.ofNode (.written value cleared) e) (rules.ofNode (.all value) e) := by
  cases e with
  | literal x sign => exact .ok trivial
  | var name sign =>
    refine (Alike.refl (rules.bound name)).bind fun e e' he => ?_
    subst he
    exact (Alike.refl (value e)).bind fun x y _ => .ok trivial
  | call name argument sign =>
    refine (Alike.refl (rules.called name)).bind fun f f' hf => ?_
    exact ((h argument).map _).bind fun x y _ => .ok trivial
  | sum terms sign => exact (foldValues_failsLike h _ _ _ terms).bind fun x y _ => .ok trivial
  | product factors sign =>
    exact (foldValues_failsLike h _ _ _ factors).bind fun x y _ => .ok trivial
  | power operands sign =>
    have hoperand := fun e => (h e).map e.bracketed
    refine (Alike.refl (stacked operands)).bind fun tower tower' htower => ?_
    subst htower
    refine (hoperand tower.1).bind fun start start' _ => ?_
    exact (foldValues_failsLike hoperand _ _ _ tower.2).bind fun x y _ => .ok trivial

/-- Without the signs of some zeros, an evaluation fails as before. -/
theorem cleared_failsLike (fuel : Nat) (e : Expr) :
    FailsLike (rules.cleared fuel e) (rules.value fuel e) := by
  induction fuel generalizing e with
  | zero => exact .error _
  | succ fuel ih =>
    cases e with
    | literal x sign => exact .ok trivial
    | var _ _ | call _ _ _ | sum _ _ | product _ _ | power _ _ => exact rules.ofNode_failsLike ih _

/-! ## Values of normal forms -/

variable {fuel : Nat}

theorem value_sum_singleton (e : Expr) (sign : Sign) :
    rules.value (fuel + 1) (.sum [e] sign) =
      (fun x => sign.apply (unsignedZero x)) <$> rules.value fuel e := by
  change (foldValues _ _ (rules.value fuel) [e] >>= fun x => Except.ok (sign.apply x)) = _
  rw [foldValues, List.foldlM_cons]
  cases rules.value fuel e with
  | error cause => rfl
  | ok x =>
    change Except.ok (sign.apply (0 + x)) = _
    rw [Decimal.zero_add]
    rfl

theorem value_product_singleton (e : Expr) :
    rules.value (fuel + 1) (.product [e] .positive) = rules.value fuel e := by
  change (foldValues _ _ (rules.value fuel) [e] >>= fun x => Except.ok x) = _
  rw [foldValues, List.foldlM_cons]
  cases rules.value fuel e with
  | error cause => rfl
  | ok x =>
    change Except.ok (1 * x) = _
    rw [Decimal.one_mul]

theorem value_alike (fuel fuel' : Nat) (e : Expr) :
    Alike EvalError.IsTooDeep Eq (rules.value fuel e) (rules.value fuel' e) := by
  rcases Nat.le_total fuel fuel' with hle | hle
  · exact .of_upTo (rules.value_upTo hle e)
  · exact .of_upTo_swap (rules.value_upTo hle e)

section Singletons

variable {R : Float → Float → Prop} {e : Expr} {y : Except EvalError Float}

theorem sum_singleton_alike {sign : Sign}
    (h : ∀ fuel, Alike EvalError.IsTooDeep (fun x x' => R (sign.apply (unsignedZero x)) x')
      (rules.value fuel e) y) (fuel : Nat) :
    Alike EvalError.IsTooDeep R (rules.value fuel (.sum [e] sign)) y := by
  cases fuel with
  | zero => exact .left trivial _
  | succ fuel =>
    rw [value_sum_singleton]
    exact (h fuel).map_left fun _ _ hx => hx

theorem product_singleton_alike (h : ∀ fuel, Alike EvalError.IsTooDeep R (rules.value fuel e) y)
    (fuel : Nat) : Alike EvalError.IsTooDeep R (rules.value fuel (.product [e] .positive)) y := by
  cases fuel with
  | zero => exact .left trivial _
  | succ fuel =>
    rw [value_product_singleton]
    exact h fuel

end Singletons

theorem overZero_alike (digit : Float) (sign : Sign) (fuel : Nat) :
    Alike EvalError.IsTooDeep Eq
      (rules.value fuel (.sum [.product [.literal digit .positive,
        .inverse (.literal 0 .positive)] .positive] sign))
      (.ok (sign.apply (Expr.overZero digit))) := by
  refine rules.sum_singleton_alike (fun fuel => ?_) fuel
  match fuel with
  | 0 | 1 | 2 => exact .left trivial _
  | fuel + 3 =>
    change Alike _ _ (.ok (1 * digit * (0 : Float).pow (-1))) _
    rw [Decimal.one_mul]
    exact .ok rfl

theorem literalNormal_alike (x : Float) (fuel : Nat) :
    Alike EvalError.IsTooDeep Eq (rules.value fuel (Expr.literalNormal x))
      (.ok (Expr.writtenNumber x)) := by
  rw [Expr.literalNormal, Expr.writtenNumber]
  split
  · exact rules.overZero_alike 0 .positive fuel
  · split
    · exact rules.overZero_alike 1 _ fuel
    · cases fuel with
      | zero => exact .left trivial _
      | succ fuel => exact .ok (Decimal.apply_abs x)

/-! ## Reading back clears -/

/-- Whether the normal form of an expression has the value of the expression in brackets, without
the signs that are lost. -/
def Clears (e : Expr) : Prop :=
  ∀ fuel fuel', Alike EvalError.IsTooDeep (fun x x' => x = e.bracketed x')
    (rules.value fuel e.normal) (rules.cleared fuel' e)

variable {rules}

/-- An evaluation may be taken to open a node, since it goes too deep otherwise. -/
theorem alike_of_succ {R : Float → Float → Prop} {e e' : Expr}
    (h : ∀ fuel fuel', Alike EvalError.IsTooDeep R (rules.value (fuel + 1) e)
      (rules.cleared (fuel' + 1) e')) (fuel fuel' : Nat) :
    Alike EvalError.IsTooDeep R (rules.value fuel e) (rules.cleared fuel' e') := by
  cases fuel' with
  | zero => exact .right trivial _
  | succ fuel' =>
    cases fuel with
    | zero => exact .left trivial _
    | succ fuel => exact h fuel fuel'

theorem clears_literal (x : Float) (sign : Sign) : rules.Clears (.literal x sign) := by
  intro fuel fuel'
  cases fuel' with
  | zero => exact .right trivial _
  | succ fuel' => exact rules.literalNormal_alike (sign.apply x) fuel

theorem clears_var (name : String) (sign : Sign) : rules.Clears (.var name sign) := by
  refine alike_of_succ fun fuel fuel' => ?_
  refine (Alike.refl (rules.bound name)).bind fun e e' he => ?_
  subst he
  refine (rules.value_alike fuel fuel' e).bind fun x x' hx => ?_
  exact .ok (congrArg sign.apply hx)

theorem clears_call (name : String) {argument : Expr} (sign : Sign) (h : rules.Clears argument) :
    rules.Clears (.call name argument sign) := by
  refine alike_of_succ fun fuel fuel' => ?_
  have hargument : Alike EvalError.IsTooDeep Eq
      (rules.value fuel (.sum [argument.normal] .positive))
      (unsignedZero <$> rules.cleared fuel' argument) := by
    refine rules.sum_singleton_alike (fun fuel => ?_) fuel
    refine (h fuel fuel').map_right fun x x' hx => ?_
    rw [hx]
    exact argument.unsignedZero_bracketed x'
  refine (Alike.refl (rules.called name)).bind fun f f' hf => ?_
  subst hf
  refine hargument.bind fun x x' hx => ?_
  exact .ok (congrArg (fun x => sign.apply (f x)) hx)

/-- The total of a sum is never negative zero, so no term needs the sign of its zero. -/
theorem terms_alike {terms : List Expr} (h : ∀ e ∈ terms, rules.Clears e) (fuel fuel' : Nat) :
    Alike EvalError.IsTooDeep (fun x x' => x = x' ∧ x ≠ -0)
      (foldValues (· + ·) 0 (rules.value fuel) (terms.map Expr.normal))
      (foldValues (· + ·) 0 (rules.cleared fuel') terms) := by
  refine foldValues_alike _ (fun e he total total' htotal => ?_) ⟨rfl, Decimal.zero_ne_neg_zero⟩
  obtain ⟨rfl, hne⟩ := htotal
  refine (h e he fuel fuel').map fun x x' hx => ⟨?_, Decimal.add_ne_neg_zero hne x⟩
  rw [hx]
  exact Expr.add_bracketed hne e x'

theorem clears_sum {terms : List Expr} (sign : Sign) (h : ∀ e ∈ terms, rules.Clears e) :
    rules.Clears (.sum terms sign) := by
  refine alike_of_succ fun fuel fuel' => ?_
  rw [Expr.normal, Expr.normals_eq_map]
  exact (terms_alike h fuel fuel').bind fun x x' hx => .ok (congrArg sign.apply hx.1)

theorem product_alike {factors : List Expr} (h : ∀ e ∈ factors, rules.Clears e)
    (fuel fuel' : Nat) :
    Alike EvalError.IsTooDeep (fun x x' => unsignedZero x = unsignedZero x')
      (rules.value fuel (.product (factors.map Expr.normal) .positive))
      (rules.cleared fuel' (.product factors .positive)) := by
  refine alike_of_succ (fun fuel fuel' => ?_) fuel fuel'
  have hfold : Alike EvalError.IsTooDeep (fun x x' => unsignedZero x = unsignedZero x')
      (foldValues (· * ·) 1 (rules.value fuel) (factors.map Expr.normal))
      (foldValues (· * ·) 1 (rules.cleared fuel') factors) := by
    refine foldValues_alike _ (fun e he total total' htotal => ?_) rfl
    refine (h e he fuel fuel').map fun x x' hx => Decimal.unsignedZero_mul htotal ?_
    rw [hx]
    exact e.unsignedZero_bracketed x'
  exact hfold.bind fun x x' hx => .ok hx

theorem clears_product {factors : List Expr} (h : ∀ e ∈ factors, rules.Clears e) :
    rules.Clears (.product factors .positive) := by
  intro fuel fuel'
  have hproduct := fun fuel => product_alike h fuel fuel'
  match factors with
  | [] =>
    refine rules.sum_singleton_alike (fun fuel => ?_) fuel
    cases fuel with
    | zero => exact .left trivial _
    | succ fuel => exact hproduct (fuel + 1)
  | [e] =>
    refine rules.sum_singleton_alike (fun fuel => ?_) fuel
    rw [← rules.value_product_singleton]
    exact hproduct (fuel + 1)
  | e :: e' :: factors =>
    rw [Expr.normal, Expr.normals_eq_map]
    exact rules.sum_singleton_alike hproduct fuel

theorem power_alike {operands : List Expr} (h : ∀ e ∈ operands, rules.Clears e)
    (fuel fuel' : Nat) :
    Alike EvalError.IsTooDeep Eq (rules.value fuel (.power (operands.map Expr.normal) .positive))
      (rules.cleared fuel' (.power operands .positive)) := by
  refine alike_of_succ (fun fuel fuel' => ?_) fuel fuel'
  have hoperand : ∀ e ∈ operands, Alike EvalError.IsTooDeep Eq (rules.value fuel e.normal)
      (e.bracketed <$> rules.cleared fuel' e) := by
    intro e he
    exact (h e he fuel fuel').map_right fun x x' hx => hx
  change Alike _ _ (stacked _ >>= _) (stacked operands >>= _)
  rw [stacked_map]
  cases htower : stacked operands with
  | error cause => exact .error cause
  | ok tower =>
    obtain ⟨htop, hbases⟩ := mem_of_stacked htower
    refine (hoperand _ htop).bind fun start start' hstart => ?_
    refine Alike.bind (foldValues_alike _ (fun e he total total' htotal => ?_) hstart)
      fun x x' hx => .ok hx
    subst htotal
    exact (hoperand e (hbases e he)).map fun x x' hx => by rw [hx]

theorem clears_power {operands : List Expr} (h : ∀ e ∈ operands, rules.Clears e) :
    rules.Clears (.power operands .positive) := by
  intro fuel fuel'
  rw [Expr.normal, Expr.normals_eq_map]
  refine rules.sum_singleton_alike (fun fuel => ?_) fuel
  refine rules.product_singleton_alike (fun fuel => ?_) fuel
  exact (power_alike h fuel fuel').mono fun x x' hx => congrArg unsignedZero hx

mutual

/-- Reading a well-formed expression back clears signs of zeros and does nothing else. -/
theorem clears (e : Expr) (h : e.WellFormed) : rules.Clears e := by
  match e with
  | .literal x sign => exact clears_literal x sign
  | .var name sign => exact clears_var name sign
  | .call name argument sign => exact clears_call name sign (clears argument h.2)
  | .sum terms sign => exact clears_sum sign (allClear terms h)
  | .product factors sign =>
    obtain ⟨rfl, hfactors⟩ := h
    exact clears_product (allClear factors hfactors)
  | .power operands sign =>
    obtain ⟨rfl, -, hoperands⟩ := h
    exact clears_power (allClear operands hoperands)
termination_by structural e

theorem allClear (es : List Expr) (h : Expr.AllWellFormed es) : ∀ e ∈ es, rules.Clears e := by
  match es with
  | [] => exact List.forall_mem_nil _
  | e :: es => exact List.forall_mem_cons.mpr ⟨clears e h.1, allClear es h.2⟩
termination_by structural es

end

/-- The brackets around a whole sum change nothing, since it is not negative zero. -/
theorem sum_normal_alike {terms : List Expr} (h : Expr.AllWellFormed terms) (fuel fuel' : Nat) :
    Alike EvalError.IsTooDeep Eq
      (rules.value fuel (.sum [(Expr.sum terms .positive).normal] .positive))
      (rules.cleared fuel' (.sum terms .positive)) := by
  refine rules.sum_singleton_alike (fun fuel => ?_) fuel
  refine alike_of_succ (fun fuel fuel' => ?_) fuel fuel'
  rw [Expr.normal, Expr.normals_eq_map]
  refine (terms_alike (allClear terms h) fuel fuel').bind fun x x' hx => .ok ?_
  exact (Decimal.unsignedZero_of_ne hx.2).trans hx.1

end Rules

end Reckon
