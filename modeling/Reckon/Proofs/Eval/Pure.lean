import Reckon.Calculate
import Reckon.Proofs.Eval.Reach
import Reckon.Proofs.Outcome

/-!
# Evaluation as a function

An evaluation that calls only functions of numbers draws no random numbers and leaves nothing behind
but records in the log. `Rules.value` gives its result as a function of the expression and of the
number of nodes that may be opened (`evaluate_eq_value`); nodes beyond those that are needed change
nothing (`value_upTo`).
-/

namespace Reckon

/-- What an evaluation that calls only functions of numbers needs of its environment. -/
structure Rules where
  limit : Nat
  bound (name : String) : Except EvalError Expr
  called (name : String) : Except EvalError (Float → Float)

/-- How the expressions below a node are evaluated, by what they are there for. -/
structure Below where
  binding (e : Expr) : Except EvalError Float
  argument (e : Expr) : Except EvalError Float
  /-- An operand of a power. -/
  operand (e : Expr) : Except EvalError Float
  /-- A term of a sum or a factor of a product. -/
  part (e : Expr) : Except EvalError Float

/-- All expressions are evaluated alike. -/
def Below.all (value : Expr → Except EvalError Float) : Below := ⟨value, value, value, value⟩

/-- Evaluates expressions from left to right, joining each value to a total by `op`. -/
def foldValues (op : Float → Float → Float) (start : Float) (below : Expr → Except EvalError Float)
    (es : List Expr) : Except EvalError Float :=
  es.foldlM (fun total e => do return op total (← below e)) start

theorem foldValues_congr {below below' : Expr → Except EvalError Float} {es : List Expr}
    (h : ∀ e ∈ es, below e = below' e) (op : Float → Float → Float) (start : Float) :
    foldValues op start below es = foldValues op start below' es := by
  induction es generalizing start with
  | nil => rfl
  | cons e es ih =>
    rw [List.forall_mem_cons] at h
    rw [foldValues, foldValues, List.foldlM_cons, List.foldlM_cons, h.1]
    congr 1
    funext total
    exact ih h.2 total

namespace Rules

/-- The value of a node. -/
def ofNode (rules : Rules) (below : Below) : Expr → Except EvalError Float
  | .literal x sign => .ok (sign.apply x)
  | .var name sign => do
    let e ← rules.bound name
    return sign.apply (← below.binding e)
  | .call name argument sign => do
    let function ← rules.called name
    return sign.apply (function (← below.argument argument))
  | .sum terms sign => do return sign.apply (← foldValues (· + ·) 0 below.part terms)
  | .product factors sign => do return sign.apply (← foldValues (· * ·) 1 below.part factors)
  | .power operands sign => do
    let (top, bases) ← stacked operands
    let start ← below.operand top
    return sign.apply (← foldValues (fun exponent x => x.pow exponent) start below.operand bases)

/-- The value of an expression when `fuel` further nodes may be opened. -/
def value (rules : Rules) : Nat → Expr → Except EvalError Float
  | 0, _ => .error (.tooDeep rules.limit)
  | fuel + 1, e => rules.ofNode (.all (rules.value fuel)) e

/-! ## More nodes than are needed -/

theorem foldValues_upTo {below below' : Expr → Except EvalError Float}
    (h : ∀ e, UpTo EvalError.IsTooDeep (below e) (below' e)) (op : Float → Float → Float)
    (start : Float) (es : List Expr) :
    UpTo EvalError.IsTooDeep (foldValues op start below es) (foldValues op start below' es) := by
  induction es generalizing start with
  | nil => exact .refl _
  | cons e es ih =>
    rw [foldValues, foldValues, List.foldlM_cons, List.foldlM_cons]
    exact ((h e).bind fun x => .refl _).bind fun total => ih total

theorem ofNode_upTo (rules : Rules) {below below' : Expr → Except EvalError Float}
    (h : ∀ e, UpTo EvalError.IsTooDeep (below e) (below' e)) (e : Expr) :
    UpTo EvalError.IsTooDeep (rules.ofNode (.all below) e) (rules.ofNode (.all below') e) := by
  cases e with
  | literal x sign => exact .refl _
  | var name sign => exact (UpTo.refl _).bind fun e => (h e).bind fun x => .refl _
  | call name argument sign =>
    exact (UpTo.refl _).bind fun function => (h argument).bind fun x => .refl _
  | sum terms sign => exact (foldValues_upTo h _ _ terms).bind fun x => .refl _
  | product factors sign => exact (foldValues_upTo h _ _ factors).bind fun x => .refl _
  | power operands sign =>
    exact (UpTo.refl _).bind fun operands => (h operands.1).bind fun start =>
      (foldValues_upTo h _ _ operands.2).bind fun x => .refl _

/-- Whatever an evaluation comes to, it comes to when more nodes may be opened, unless it goes too
deep. -/
theorem value_upTo (rules : Rules) {fuel fuel' : Nat} (hle : fuel ≤ fuel') (e : Expr) :
    UpTo EvalError.IsTooDeep (rules.value fuel e) (rules.value fuel' e) := by
  induction fuel generalizing fuel' e with
  | zero => exact .of_error trivial _
  | succ fuel ih =>
    obtain ⟨fuel', rfl⟩ : ∃ more, fuel' = more + 1 := ⟨fuel' - 1, by omega⟩
    exact rules.ofNode_upTo (fun e => ih (by omega) e) e

end Rules

/-! ## The evaluator computes the value -/

/-- Whether a computation on machines with `d` open nodes has a given result and leaves the open
nodes and the random numbers as they are. -/
def Computes (d : Nat) {α : Type} (x : Run α) (result : Except EvalError α) : Prop :=
  ∀ m : Machine, m.openNodes = d →
    (x m).1 = result ∧ (x m).2.openNodes = d ∧ (x m).2.source = m.source

namespace Computes

variable {d : Nat} {α β : Type}

theorem ofOutcome (result : Except EvalError α) : Computes d (Run.ofOutcome result) result :=
  fun _ hm => ⟨rfl, hm, rfl⟩

theorem pure (a : α) : Computes d (pure a) (.ok a) := fun _ hm => ⟨rfl, hm, rfl⟩

theorem bind {x : Run α} {result : Except EvalError α} {f : α → Run β}
    {g : α → Except EvalError β} (h : Computes d x result) (hnext : ∀ a, Computes d (f a) (g a)) :
    Computes d (x >>= f) (result >>= g) := by
  intro m hm
  obtain ⟨hresult, hopen, hsource⟩ := h m hm
  rw [Run.bind_apply]
  generalize x m = done at hresult hopen hsource ⊢
  obtain ⟨result', m'⟩ := done
  obtain rfl : result' = result := hresult
  cases result' with
  | error cause => exact ⟨rfl, hopen, hsource⟩
  | ok a =>
    obtain ⟨hresult', hopen', hsource'⟩ := hnext a m' hopen
    exact ⟨hresult', hopen', hsource'.trans hsource⟩

theorem reported {x : Run α} {result : Except EvalError α} (h : Computes d x result) :
    Computes d x.reported result := by
  intro m hm
  obtain ⟨hresult, hopen, hsource⟩ := h m hm
  rw [Run.reported]
  generalize x m = done at hresult hopen hsource ⊢
  obtain ⟨result', m'⟩ := done
  cases result' <;> exact ⟨hresult, hopen, hsource⟩

theorem outcome {x : Run α} {result : Except EvalError α} (h : Computes d x result) :
    Computes d x.outcome (.ok result) := by
  intro m hm
  obtain ⟨hresult, hopen, hsource⟩ := h m hm
  exact ⟨congrArg Except.ok hresult, hopen, hsource⟩

theorem node {limit : Nat} (hlimit : d < limit) {x : Run α} {result : Except EvalError α}
    (h : Computes (d + 1) x result) : Computes d (Run.node limit x) result := by
  intro m hm
  obtain ⟨hresult, hopen, hsource⟩ := h { m with openNodes := m.openNodes + 1 } (by simp [hm])
  rw [Run.node, if_neg (by omega)]
  exact ⟨hresult, by simp [hopen], hsource⟩

theorem folded {below : Expr → Run Float} {below' : Expr → Except EvalError Float} {es : List Expr}
    (h : ∀ e ∈ es, Computes d (below e) (below' e)) (op : Float → Float → Float) (start : Float) :
    Computes d (Run.folded op start below es) (foldValues op start below' es) := by
  induction es generalizing start with
  | nil => exact pure start
  | cons e es ih =>
    rw [List.forall_mem_cons] at h
    rw [Run.folded, foldValues, List.foldlM_cons, List.foldlM_cons]
    exact (h.1.bind fun x => pure _).bind fun total => ih h.2 total

/-- A function of numbers evaluates its argument once and maps the value. -/
theorem unary {here : Expr → Run Float} {argument : Expr} {result : Except EvalError Float}
    (h : Computes d (here argument) result) (elsewhere : Option Env → Expr → Run Float)
    (f : Float → Float) :
    Computes d ((Program.unary f argument).perform here elsewhere) (f <$> result) := by
  have hvalue : f <$> result = Except.ok result >>= fun result => f <$> result := rfl
  rw [hvalue]
  refine h.outcome.bind fun result' => ?_
  cases result' <;> exact ofOutcome _

end Computes

/-! ## Functions of numbers -/

/-- What an evaluation sees of an environment as long as it calls only given functions of numbers.
-/
def EnvOf.rules (env : Env) (function? : String → Option (Float → Float)) : Rules where
  limit := env.limits.maxEvalDepth
  bound := boundTo (some env)
  called name :=
    match function? name with
    | none => .error (.unknownFunction name)
    | some f => .ok f

theorem boundTo_eq_ok {env : Env} {name : String} {e : Expr} :
    boundTo (some env) name = .ok e ↔ env.lookup? name = some e := by
  rw [boundTo]
  cases env.lookup? name <;> simp

/-- The operands of a tower are the topmost one and those below it. -/
theorem mem_of_stacked {operands bases : List Expr} {top : Expr}
    (h : stacked operands = .ok (top, bases)) : top ∈ operands ∧ ∀ e ∈ bases, e ∈ operands := by
  rw [stacked] at h
  split at h
  · rename_i top' base bases' hreverse
    obtain ⟨rfl, rfl⟩ := Prod.mk.inj (Except.ok.inj h)
    have hmem : ∀ e ∈ top' :: base :: bases', e ∈ operands := fun e he =>
      List.mem_reverse.mp (hreverse ▸ he)
    exact ⟨hmem _ List.mem_cons_self, fun e he => hmem e (List.mem_cons_of_mem _ he)⟩
  · contradiction

namespace Computes

variable {env : Env} {function? : String → Option (Float → Float)}

/-- A call of a function of numbers. -/
theorem called {d : Nat} {below : Option Env → Expr → Run Float} {name : String}
    {argument : Expr} {result : Except EvalError Float}
    (hname : env.function? name = (function? name).map Program.unary)
    (h : Computes d (below (some env) argument) result) (sign : Sign) :
    Computes d (Run.ofNode (some env) below (.call name argument sign))
      ((env.rules function?).called name >>= fun f =>
        result >>= fun x => .ok (sign.apply (f x))) := by
  rw [Run.ofNode, calledBy_some, EnvOf.rules, hname]
  dsimp only
  cases function? name with
  | none => exact ofOutcome _
  | some f =>
    have hvalue : (result >>= fun x => Except.ok (sign.apply (f x))) =
        f <$> result >>= fun x => .ok (sign.apply x) := by
      cases result <;> rfl
    change Computes d _ (result >>= fun x => Except.ok (sign.apply (f x)))
    rw [hvalue]
    exact (unary h.reported _ f).bind fun x => pure _

theorem ofNode {d : Nat} {e : Expr} (hfunctions : env.HasFunctions function? e)
    {below : Option Env → Expr → Run Float} {below' : Expr → Except EvalError Float}
    (h : ∀ e', env.Step e e' → Computes d (below (some env) e') (below' e')) :
    Computes d (Run.ofNode (some env) below e)
      ((env.rules function?).ofNode (.all below') e) := by
  cases e with
  | literal x sign => exact pure _
  | var name sign =>
    change Computes d (Run.ofOutcome (boundTo (some env) name) >>= _)
      (boundTo (some env) name >>= _)
    cases hbound : boundTo (some env) name with
    | error cause => exact ofOutcome _
    | ok e => exact (h e (.binding (boundTo_eq_ok.mp hbound))).bind fun x => pure _
  | call name argument sign =>
    exact called (hfunctions name argument sign .refl) (h argument (.child List.mem_cons_self)) sign
  | sum terms sign => exact (folded (fun e he => h e (.child he)) _ _).bind fun x => pure _
  | product factors sign => exact (folded (fun e he => h e (.child he)) _ _).bind fun x => pure _
  | power operands sign =>
    change Computes d (Run.ofOutcome (stacked operands) >>= _) (stacked operands >>= _)
    cases htower : stacked operands with
    | error cause => exact ofOutcome _
    | ok tower =>
      obtain ⟨htop, hbases⟩ := mem_of_stacked htower
      exact (h _ (.child htop)).bind fun start =>
        (folded (fun e he => h e (.child (hbases e he))) _ start).bind fun x => pure _

theorem walk {fuel d : Nat} (hfuel : Limits.ceiling ≤ fuel + d) {e : Expr}
    (hfunctions : env.HasFunctions function? e) :
    Computes d (walk fuel (some env) e)
      ((env.rules function?).value (env.limits.maxEvalDepth - d) e) := by
  refine walk_induction (motive := fun d origin e x => origin = some env →
      env.HasFunctions function? e →
        Computes d x ((env.rules function?).value (env.limits.maxEvalDepth - d) e))
    ?_ ?_ hfuel (some env) e rfl hfunctions
  · rintro d _ e fuel hlimit rfl - m hm
    rw [limitsOf_some] at hlimit
    rw [walk_refused (hm ▸ hlimit), Nat.sub_eq_zero_of_le hlimit]
    exact ⟨rfl, hm, rfl⟩
  · rintro d _ e fuel hlimit ih rfl hfunctions
    rw [limitsOf_some] at hlimit
    have hnodes : env.limits.maxEvalDepth - d = env.limits.maxEvalDepth - (d + 1) + 1 := by omega
    rw [hnodes]
    exact node hlimit (ofNode hfunctions fun e' hstep => ih _ _ rfl (hfunctions.step hstep))

theorem evaluate {e : Expr} (h : env.HasFunctions function? e) (d : Nat) :
    Computes d (evaluate (some env) e)
      ((env.rules function?).value (env.limits.maxEvalDepth - d) e) := by
  refine reported fun m hm => ?_
  rw [evaluateNode, hm]
  exact walk (Nat.le_add_of_sub_le (Nat.le_refl _)) h m hm

end Computes

/-- An evaluation that calls only functions of numbers comes to the value of the expression. -/
theorem evaluate_eq_value {env : Env} {function? : String → Option (Float → Float)} {e : Expr}
    (h : env.HasFunctions function? e) (m : Machine) :
    (evaluate (some env) e m).1 =
      (env.rules function?).value (env.limits.maxEvalDepth - m.openNodes) e :=
  (Computes.evaluate h m.openNodes m rfl).1

/-- An evaluation that calls only functions of numbers draws no random numbers. -/
theorem source_evaluate {env : Env} {function? : String → Option (Float → Float)} {e : Expr}
    (h : env.HasFunctions function? e) (m : Machine) :
    (evaluate (some env) e m).2.source = m.source :=
  (Computes.evaluate h m.openNodes m rfl).2.2

end Reckon
