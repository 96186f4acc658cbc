import Reckon.Proofs.Grammar.Inline
import Reckon.Proofs.Written.Cleared

/-!
# The value of an expression with definitions in place of names

A variable has the value of the sum that it is bound to, with its own sign. So an expression keeps
its value, and the cause of its failure, when that sum takes the place of the variable, unless one
of the two evaluations goes too deep (`evaluate_inlined`).
-/

namespace Reckon

variable {definition? : String → Option (List Expr)}

/-! ## Functions -/

namespace EnvOf

variable {env : Env} {function? : String → Option (Float → Float)}

mutual

/-- With bound sums in place of variables, an expression reaches no other functions. -/
theorem HasFunctions.inlined
    (hbound : ∀ name terms, definition? name = some terms →
      env.lookup? name = some (.sum terms .positive))
    (e : Expr) (h : env.HasFunctions function? e) :
    env.HasFunctions function? (e.inlined definition?) := by
  match e with
  | .literal x sign => exact h
  | .var name sign =>
    rw [Expr.inlined]
    cases hterms : definition? name with
    | none => exact h
    | some terms =>
      have hsum := h.step (.binding (hbound name terms hterms))
      exact .sum (fun e he => hsum.step (.child he)) sign
  | .call name argument sign =>
    have hargument := h.step (.child List.mem_cons_self)
    exact .call (h name argument sign .refl) (inlined hbound argument hargument) sign
  | .sum terms sign => exact .sum (allInlined hbound terms fun e he => h.step (.child he)) sign
  | .product factors sign =>
    exact .product (allInlined hbound factors fun e he => h.step (.child he)) sign
  | .power operands sign =>
    exact .power (allInlined hbound operands fun e he => h.step (.child he)) sign
termination_by structural e

theorem HasFunctions.allInlined
    (hbound : ∀ name terms, definition? name = some terms →
      env.lookup? name = some (.sum terms .positive))
    (es : List Expr) (h : ∀ e ∈ es, env.HasFunctions function? e) :
    ∀ e ∈ Expr.inlinedAll definition? es, env.HasFunctions function? e := by
  match es with
  | [] => exact List.forall_mem_nil _
  | e :: es =>
    rw [List.forall_mem_cons] at h
    exact List.forall_mem_cons.mpr ⟨inlined hbound e h.1, allInlined hbound es h.2⟩
termination_by structural es

end

end EnvOf

/-! ## Values -/

namespace Rules

variable {rules : Rules}

/-- Both evaluations may be taken to open a node, since they go too deep otherwise. -/
theorem values_alike_of_succ {R : Float → Float → Prop} {e e' : Expr}
    (h : ∀ fuel fuel', Alike EvalError.IsTooDeep R (rules.value (fuel + 1) e)
      (rules.value (fuel' + 1) e')) (fuel fuel' : Nat) :
    Alike EvalError.IsTooDeep R (rules.value fuel e) (rules.value fuel' e') := by
  cases fuel' with
  | zero => exact .right trivial _
  | succ fuel' =>
    cases fuel with
    | zero => exact .left trivial _
    | succ fuel => exact h fuel fuel'

/-- The sign of a sum comes last. -/
theorem value_sum_eq (fuel : Nat) (terms : List Expr) (sign : Sign) :
    rules.value fuel (.sum terms sign) =
      sign.apply <$> rules.value fuel (.sum terms .positive) := by
  cases fuel with
  | zero => rfl
  | succ fuel =>
    change (foldValues _ _ (rules.value fuel) terms >>= fun x => Except.ok (sign.apply x)) =
      sign.apply <$> (foldValues _ _ (rules.value fuel) terms >>= fun x => Except.ok x)
    cases foldValues (· + ·) 0 (rules.value fuel) terms <;> rfl

/-- Whether an expression has the same value with definitions in place of variables. -/
def KeepsValue (rules : Rules) (definition? : String → Option (List Expr)) (e : Expr) : Prop :=
  ∀ fuel fuel', Alike EvalError.IsTooDeep Eq (rules.value fuel (e.inlined definition?))
    (rules.value fuel' e)

/-- A sum with the sign of a variable that is bound to it has the value of the variable. -/
theorem keepsValue_var
    (hbound : ∀ name terms, definition? name = some terms →
      rules.bound name = .ok (.sum terms .positive))
    (name : String) (sign : Sign) : rules.KeepsValue definition? (.var name sign) := by
  intro fuel fuel'
  rw [Expr.inlined]
  cases hterms : definition? name with
  | none => exact rules.value_alike fuel fuel' _
  | some terms =>
    cases fuel' with
    | zero => exact .right trivial _
    | succ fuel' =>
      have hvalue : rules.value (fuel' + 1) (.var name sign) =
          sign.apply <$> rules.value fuel' (.sum terms .positive) := by
        change (rules.bound name >>= fun e => rules.value fuel' e >>= fun x =>
          Except.ok (sign.apply x)) = _
        rw [hbound name terms hterms]
        rfl
      rw [hvalue]
      dsimp only
      rw [value_sum_eq]
      exact (rules.value_alike fuel fuel' _).map fun x x' hx => congrArg sign.apply hx

theorem keepsValue_call (name : String) {argument : Expr} (sign : Sign)
    (h : rules.KeepsValue definition? argument) :
    rules.KeepsValue definition? (.call name argument sign) := by
  refine values_alike_of_succ fun fuel fuel' => ?_
  refine (Alike.refl (rules.called name)).bind fun f f' hf => ?_
  subst hf
  exact (h fuel fuel').bind fun x x' hx => .ok (congrArg (fun x => sign.apply (f x)) hx)

theorem foldValues_inlined {es : List Expr} (h : ∀ e ∈ es, rules.KeepsValue definition? e)
    (op : Float → Float → Float) (start : Float) (fuel fuel' : Nat) :
    Alike EvalError.IsTooDeep Eq
      (foldValues op start (rules.value fuel) (Expr.inlinedAll definition? es))
      (foldValues op start (rules.value fuel') es) := by
  rw [Expr.inlinedAll_eq_map]
  refine foldValues_alike _ (fun e he total total' htotal => ?_) rfl
  subst htotal
  exact (h e he fuel fuel').map fun x x' hx => congrArg (op total) hx

theorem keepsValue_sum {terms : List Expr} (sign : Sign)
    (h : ∀ e ∈ terms, rules.KeepsValue definition? e) :
    rules.KeepsValue definition? (.sum terms sign) :=
  values_alike_of_succ fun fuel fuel' =>
    (foldValues_inlined h (· + ·) 0 fuel fuel').bind fun _ _ hx => .ok (congrArg sign.apply hx)

theorem keepsValue_product {factors : List Expr} (sign : Sign)
    (h : ∀ e ∈ factors, rules.KeepsValue definition? e) :
    rules.KeepsValue definition? (.product factors sign) :=
  values_alike_of_succ fun fuel fuel' =>
    (foldValues_inlined h (· * ·) 1 fuel fuel').bind fun _ _ hx => .ok (congrArg sign.apply hx)

theorem keepsValue_power {operands : List Expr} (sign : Sign)
    (h : ∀ e ∈ operands, rules.KeepsValue definition? e) :
    rules.KeepsValue definition? (.power operands sign) := by
  refine values_alike_of_succ fun fuel fuel' => ?_
  rw [Expr.inlined, Expr.inlinedAll_eq_map]
  change Alike _ _ (stacked _ >>= _) (stacked operands >>= _)
  rw [stacked_map]
  cases htower : stacked operands with
  | error cause => exact .error cause
  | ok tower =>
    obtain ⟨htop, hbases⟩ := mem_of_stacked htower
    refine (h _ htop fuel fuel').bind fun start start' hstart => ?_
    subst hstart
    have hfold := foldValues_inlined (fun e he => h e (hbases e he))
      (fun exponent x => x.pow exponent) start fuel fuel'
    rw [Expr.inlinedAll_eq_map] at hfold
    exact hfold.bind fun _ _ hx => .ok (congrArg sign.apply hx)

mutual

/-- An expression has the same value with sums in place of the variables bound to them. -/
theorem keepsValue
    (hbound : ∀ name terms, definition? name = some terms →
      rules.bound name = .ok (.sum terms .positive)) (e : Expr) :
    rules.KeepsValue definition? e := by
  match e with
  | .literal x sign => exact fun fuel fuel' => rules.value_alike fuel fuel' (.literal x sign)
  | .var name sign => exact keepsValue_var hbound name sign
  | .call name argument sign => exact keepsValue_call name sign (keepsValue hbound argument)
  | .sum terms sign => exact keepsValue_sum sign (allKeepValue hbound terms)
  | .product factors sign => exact keepsValue_product sign (allKeepValue hbound factors)
  | .power operands sign => exact keepsValue_power sign (allKeepValue hbound operands)
termination_by structural e

theorem allKeepValue
    (hbound : ∀ name terms, definition? name = some terms →
      rules.bound name = .ok (.sum terms .positive)) (es : List Expr) :
    ∀ e ∈ es, rules.KeepsValue definition? e := by
  match es with
  | [] => exact List.forall_mem_nil _
  | e :: es => exact List.forall_mem_cons.mpr ⟨keepsValue hbound e, allKeepValue hbound es⟩
termination_by structural es

end

end Rules

/-- Evaluating an expression gives the same with sums in place of the variables that are bound to
them, unless one of the evaluations goes too deep. -/
theorem evaluate_inlined {env : Env} {function? : String → Option (Float → Float)}
    (hbound : ∀ name terms, definition? name = some terms →
      env.lookup? name = some (.sum terms .positive))
    {e : Expr} (hfunctions : env.HasFunctions function? e) (m : Machine) :
    Alike EvalError.IsTooDeep Eq (evaluate (some env) (e.inlined definition?) m).1
      (evaluate (some env) e m).1 := by
  rw [evaluate_eq_value (hfunctions.inlined hbound), evaluate_eq_value hfunctions]
  have hrules : ∀ name terms, definition? name = some terms →
      (env.rules function?).bound name = .ok (.sum terms .positive) :=
    fun name terms hterms => boundTo_eq_ok.mpr (hbound name terms hterms)
  exact Rules.keepsValue hrules e _ _

end Reckon
