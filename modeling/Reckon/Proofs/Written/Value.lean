import Reckon.Proofs.Limits.Compile
import Reckon.Proofs.Written.Cleared
import Reckon.Proofs.Written.ReadBack

/-!
# The value of a written expression

The text of an expression has the value that the expression has without the signs of zeros that are
lost by writing it, so it has the value of the expression exactly if they do not matter
(`calculate_text_same_iff`). In polynomials they never do (`calculate_text_of_isPolynomial`).
-/

namespace Reckon

/-! ## What the text reaches -/

section Functions

open EnvOf (HasFunctions)

variable {env : Env} {function? : String → Option (Float → Float)}

theorem hasFunctions_literalNormal (x : Float) :
    env.HasFunctions function? (Expr.literalNormal x) := by
  have hquotient : ∀ digit sign, env.HasFunctions function?
      (.sum [.product [.literal digit .positive, .inverse (.literal 0 .positive)] .positive]
        sign) := by
    intro digit sign
    refine HasFunctions.sum (List.forall_mem_singleton.mpr (HasFunctions.product ?_ _)) sign
    refine List.forall_mem_cons.mpr ⟨.literal _ _, List.forall_mem_singleton.mpr (.power ?_ _)⟩
    exact List.forall_mem_cons.mpr ⟨.literal _ _, List.forall_mem_singleton.mpr (.literal _ _)⟩
  rw [Expr.literalNormal]
  split
  · exact hquotient 0 _
  · split
    · exact hquotient 1 _
    · exact .literal _ _

mutual

/-- The normal form of an expression reaches the same functions. -/
theorem hasFunctions_normal (e : Expr) (h : env.HasFunctions function? e) :
    env.HasFunctions function? e.normal := by
  match e with
  | .literal x sign => exact hasFunctions_literalNormal _
  | .var name sign => exact h
  | .call name argument sign =>
    have hargument := hasFunctions_normal argument (h.step (.child List.mem_cons_self))
    refine .call (h name argument sign .refl) ?_ sign
    exact .sum (List.forall_mem_singleton.mpr hargument) _
  | .sum terms sign =>
    exact .sum (hasFunctions_normals terms fun e he => h.step (.child he)) sign
  | .product [] sign => exact .sum (List.forall_mem_singleton.mpr (.literal _ _)) sign
  | .product [e] sign =>
    have he := hasFunctions_normal e (h.step (.child List.mem_cons_self))
    exact .sum (List.forall_mem_singleton.mpr he) sign
  | .product (e :: e' :: factors) sign =>
    have hfactors := hasFunctions_normals (e :: e' :: factors) fun e he => h.step (.child he)
    exact .sum (List.forall_mem_singleton.mpr (.product hfactors _)) sign
  | .power operands sign =>
    have hoperands := hasFunctions_normals operands fun e he => h.step (.child he)
    refine .sum (List.forall_mem_singleton.mpr (.product ?_ _)) sign
    exact List.forall_mem_singleton.mpr (.power hoperands _)
termination_by structural e

theorem hasFunctions_normals (es : List Expr) (h : ∀ e ∈ es, env.HasFunctions function? e) :
    ∀ e ∈ Expr.normals es, env.HasFunctions function? e := by
  match es with
  | [] => exact List.forall_mem_nil _
  | e :: es =>
    rw [List.forall_mem_cons] at h
    exact List.forall_mem_cons.mpr ⟨hasFunctions_normal e h.1, hasFunctions_normals es h.2⟩
termination_by structural es

end

end Functions

/-! ## Calculating the text -/

/-- Whatever the limits, the text of a well-formed expression compiles to its normal form in a sum,
unless it nests too deep. -/
theorem compile_text_upTo (limits : Limits) {e : Expr} (h : e.WellFormed)
    (hword : e.text.length ≤ Limits.ceiling) :
    UpTo Error.IsTooDeep (compile limits e.text) (.ok (.sum [e.normal] .positive)) := by
  obtain ⟨tokens, htokens, d, hd⟩ := exists_derivation_of_text h
  have hlength := length_tokenize_le htokens
  have hcompile : compile { limits with maxDepth := max limits.maxDepth e.text.length } e.text =
      .ok d.expr :=
    compile_of_derivation htokens (Nat.le_trans hlength (Nat.le_max_right _ _))
      (Nat.le_trans hlength hword) d
  rw [← hd, ← hcompile]
  exact compile_upTo (Nat.le_max_left _ _) e.text

/-- A line has the value of what it compiles to. -/
theorem calculate_of_compile {env : Env} {function? : String → Option (Float → Float)}
    {line : String} {e : Expr} (hcompile : compile env.limits line = .ok e)
    (h : env.HasFunctions function? e) (m : Machine) :
    (calculate (some env) line m).1 =
      ((env.rules function?).value (env.limits.maxEvalDepth - m.openNodes) e).mapError .eval := by
  rw [calculate, limitsOf_some, hcompile]
  change (evaluate (some env) e (m.tell _)).1.mapError Error.eval = _
  rw [evaluate_eq_value h]
  rfl

theorem calculate_of_error {env : Env} {line : String} {cause : Error}
    (hcompile : compile env.limits line = .error cause) (m : Machine) :
    (calculate (some env) line m).1 = .error cause := by
  rw [calculate, limitsOf_some, hcompile]

/-- The root of a compiled expression is a sum without a sign. -/
theorem exists_sum_of_compile {limits : Limits} {line : String} {e : Expr}
    (h : compile limits line = .ok e) : ∃ terms, e = .sum terms .positive := by
  obtain ⟨tokens, -, d, rfl⟩ := exists_derivation_of_compile h
  exact ⟨d.exprs, rfl⟩

/-- The text of an expression has the value of the expression without the signs that are lost. -/
theorem calculate_text_alike {limits : Limits} {line : String} {e : Expr} {env : Env}
    {function? : String → Option (Float → Float)} (hcompile : compile limits line = .ok e)
    (hword : e.text.length ≤ Limits.ceiling) (hfunctions : env.HasFunctions function? e)
    (m : Machine) :
    Alike Error.IsTooDeep Eq (calculate (some env) e.text m).1
      (((env.rules function?).cleared (env.limits.maxEvalDepth - m.openNodes) e).mapError
        .eval) := by
  have hwf := wellFormed_of_compile hcompile
  obtain ⟨terms, rfl⟩ := exists_sum_of_compile hcompile
  rcases compile_text_upTo env.limits hwf hword with htext | ⟨cause, hcause, htext⟩
  · have hnormal := hasFunctions_normal _ hfunctions
    rw [calculate_of_compile htext (.sum (List.forall_mem_singleton.mpr hnormal) _)]
    exact (Rules.sum_normal_alike hwf _ _).mapError fun _ h => h
  · rw [calculate_of_error htext]
    exact .left hcause _

/-- Whether two numbers are equal, all NaNs counted as one. -/
def SameNumber (x y : Float) : Prop := (x == y) = true ∨ (x.isNaN = true ∧ y.isNaN = true)

/-- Whether two outcomes are the same error or the same number. -/
def SameResult : Except Error Float → Except Error Float → Prop
  | .ok x, .ok y => SameNumber x y
  | .error cause, .error cause' => cause = cause'
  | _, _ => False

/-- As long as nothing goes too deep, calculating the text of an expression gives the result of
evaluating the expression without the signs of zeros that are lost. It is the result of the
expression exactly if these signs do not matter; a failure never depends on them. The bound on the
text holds of every text, since lengths are machine words. -/
theorem calculate_text_same_iff {limits : Limits} {line : String} {e : Expr} {env : Env}
    {function? : String → Option (Float → Float)} (m : Machine)
    (hcompile : compile limits line = .ok e) (hword : e.text.length ≤ Limits.ceiling)
    (hfunctions : env.HasFunctions function? e)
    (hevaluate : ∀ cause : EvalError, cause.IsTooDeep → (evaluate (some env) e m).1 ≠ .error cause)
    (hcalculate : ∀ cause : Error, cause.IsTooDeep →
      (calculate (some env) e.text m).1 ≠ .error cause) :
    (calculate (some env) e.text m).1 =
        ((env.rules function?).cleared (env.limits.maxEvalDepth - m.openNodes) e).mapError .eval ∧
      (SameResult (calculate (some env) e.text m).1 ((evaluate (some env) e m).1.mapError .eval) ↔
        ∀ x y, (evaluate (some env) e m).1 = .ok x →
          (env.rules function?).cleared (env.limits.maxEvalDepth - m.openNodes) e = .ok y →
            SameNumber y x) := by
  have htext := calculate_text_alike hcompile hword hfunctions m
  have hfails := (env.rules function?).cleared_failsLike (env.limits.maxEvalDepth - m.openNodes) e
  rw [← evaluate_eq_value hfunctions m] at hfails
  generalize (env.rules function?).cleared _ e = cleared at htext hfails ⊢
  generalize (evaluate (some env) e m).1 = evaluated at hevaluate hfails ⊢
  generalize (calculate (some env) e.text m).1 = calculated at hcalculate htext ⊢
  have heq : calculated = cleared.mapError .eval := by
    refine htext.eq_of_not hcalculate fun cause hcause h => ?_
    cases hfails with
    | ok _ => contradiction
    | error cause' =>
      obtain rfl : Error.eval cause' = cause := Except.error.inj h
      exact hevaluate cause' hcause rfl
    | left hfalse => exact hfalse.elim
    | right hfalse => exact hfalse.elim
  refine ⟨heq, ?_⟩
  rw [heq]
  cases hfails with
  | @ok y x h =>
    refine ⟨fun hsame x' y' hx hy => ?_, fun hsame => hsame x y rfl rfl⟩
    obtain rfl := Except.ok.inj hx
    obtain rfl := Except.ok.inj hy
    exact hsame
  | error cause => exact ⟨fun _ x y hx => (nomatch hx), fun _ => rfl⟩
  | left h => exact h.elim
  | right h => exact h.elim

/-- A quotient by the value of a function, which is a power in brackets of its own once written. -/
theorem calculate_text_quotient :
    ∃ e, compile .standard "1/Abs-2" = .ok e ∧ e.text.length ≤ Limits.ceiling ∧
      ∃ env function? m, env.HasFunctions function? e ∧
        (∀ cause : EvalError, cause.IsTooDeep → (evaluate (some env) e m).1 ≠ .error cause) ∧
        (∀ cause : Error, cause.IsTooDeep → (calculate (some env) e.text m).1 ≠ .error cause) ∧
        (calculate (some env) e.text m).1 =
          ((env.rules function?).cleared (env.limits.maxEvalDepth - m.openNodes) e).mapError
            .eval := by
  have hrun : (compile .standard "1/Abs-2").toOption.map (fun e =>
      (e.text,
        (evaluate (some ((Env.empty .standard).register "Abs" (.unary Float.abs))) e
          (.start ⟨0⟩)).1.toBool,
        (calculate (some ((Env.empty .standard).register "Abs" (.unary Float.abs))) e.text
          (.start ⟨0⟩)).1.toBool)) = some ("((1*(Abs(-2)^-1)))", true, true) := by
    decide +kernel
  obtain ⟨e, he, hends⟩ := Option.map_eq_some_iff.mp hrun
  simp only [Prod.mk.injEq] at hends
  obtain ⟨htext, hevaluate, hcalculate⟩ := hends
  have hcompile := toOption_eq_some.mp he
  have hword : e.text.length ≤ Limits.ceiling := by
    rw [htext]
    decide
  have hfunctions : ((Env.empty .standard).register "Abs" (.unary Float.abs)).HasFunctions
      (fun name => if name = "Abs" then some Float.abs else none) e := by
    intro name argument sign _
    by_cases hname : name = "Abs"
    · simp [hname]
    · simp [hname]
  have hevaluate' := fun cause (_ : EvalError.IsTooDeep cause) =>
    ne_error_of_toBool hevaluate cause
  have hcalculate' := fun cause (_ : Error.IsTooDeep cause) => ne_error_of_toBool hcalculate cause
  exact ⟨e, hcompile, hword, _, _, .start ⟨0⟩, hfunctions, hevaluate', hcalculate',
    (calculate_text_same_iff _ hcompile hword hfunctions hevaluate' hcalculate').1⟩

/-! ## Polynomials -/

namespace Expr

mutual

/-- Whether an expression has neither powers nor calls, and no number but finite ones. -/
def IsPolynomial : Expr → Prop
  | literal x sign => (sign.apply x).isNaN = false ∧ (sign.apply x).isInf = false
  | var _ _ => True
  | call _ _ _ | power _ _ => False
  | sum es _ | product es _ => AllPolynomial es
termination_by structural e => e

/-- Whether all of some expressions are polynomials. -/
def AllPolynomial : List Expr → Prop
  | [] => True
  | e :: es => e.IsPolynomial ∧ AllPolynomial es
termination_by structural es => es

end

theorem isPolynomial_of_mem {es : List Expr} (h : AllPolynomial es) : ∀ e ∈ es, e.IsPolynomial := by
  induction es with
  | nil => exact List.forall_mem_nil _
  | cons e es ih => exact List.forall_mem_cons.mpr ⟨h.1, ih h.2⟩

end Expr

namespace Rules

variable (rules : Rules)

/-- A polynomial has no place where the sign of a zero is lost. -/
theorem cleared_eq_value {e : Expr} (h : e.IsPolynomial) (fuel : Nat) :
    rules.cleared fuel e = rules.value fuel e := by
  induction fuel generalizing e with
  | zero => rfl
  | succ fuel ih =>
    cases e with
    | literal x sign =>
      obtain ⟨hnan, hinf⟩ := h
      have hwritten : Expr.writtenNumber (sign.apply x) = sign.apply x := by
        rw [Expr.writtenNumber, if_neg (Bool.eq_false_iff.mp hnan),
          if_neg (Bool.eq_false_iff.mp hinf)]
      exact congrArg Except.ok hwritten
    | var name sign => rfl
    | call name argument sign => exact h.elim
    | sum terms sign =>
      have hterms := foldValues_congr (fun e he => ih (Expr.isPolynomial_of_mem h e he)) (· + ·) 0
      exact congrArg (fun total => total >>= fun x => Except.ok (sign.apply x)) hterms
    | product factors sign =>
      have hfactors := foldValues_congr (fun e he => ih (Expr.isPolynomial_of_mem h e he)) (· * ·) 1
      exact congrArg (fun total => total >>= fun x => Except.ok (sign.apply x)) hfactors
    | power operands sign => exact h.elim

end Rules

/-- The text of a polynomial has the very value of the polynomial, signs of zeros included. -/
theorem calculate_text_of_isPolynomial {limits : Limits} {line : String} {e : Expr} {env : Env}
    {function? : String → Option (Float → Float)} (m : Machine)
    (hcompile : compile limits line = .ok e) (hword : e.text.length ≤ Limits.ceiling)
    (hfunctions : env.HasFunctions function? e) (h : e.IsPolynomial) :
    Alike Error.IsTooDeep Eq (calculate (some env) e.text m).1
      ((evaluate (some env) e m).1.mapError .eval) := by
  rw [evaluate_eq_value hfunctions, ← Rules.cleared_eq_value _ h]
  exact calculate_text_alike hcompile hword hfunctions m

end Reckon
