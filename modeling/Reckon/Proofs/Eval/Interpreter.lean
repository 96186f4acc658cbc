import Reckon.Eval

/-!
# Evaluators that pass the depth down

The evaluator counts open nodes in the state of its machine. An `Interpreter` says what the steps of
an evaluation do in a monad of its own, which need not count anything: its evaluator hands the
number of open nodes down as an argument, and stops where that reaches the limit. A `Simulation`
relates the evaluator to that of an interpreter, by a relation for every depth that the steps of
both keep.
-/

namespace Reckon

variable {Code : Type}

/-- What the steps of an evaluation do. -/
structure Interpreter (Code : Type) (n : Type → Type) where
  fail {α : Type} (cause : EvalError) : n α
  draw : n Float
  outcome (run : n Float) : n (Except EvalError Float)
  reported (run : n Float) : n Float
  /-- Works on a node at a given depth, for an evaluation that was started in `origin`. -/
  node (origin : Option (EnvOf Code)) (depth : Nat) (e : Expr) (run : n Float) : n Float

namespace Interpreter

variable {n : Type → Type} [Monad n] (I : Interpreter Code n)

/-- The computation with a given outcome. -/
def ofOutcome {α : Type} : Except EvalError α → n α
  | .ok a => pure a
  | .error cause => I.fail cause

/-- Runs a program: `here` evaluates expressions in the environment of the call, and `elsewhere` in
any other one or in none. -/
def perform (here : Expr → n Float) (elsewhere : Option (EnvOf Code) → Expr → n Float) :
    ProgramOf Code → n Float
  | .done result => I.ofOutcome result
  | .draw next => do
    let x ← I.draw
    perform here elsewhere (next x)
  | .evaluate e next => do
    let result ← I.outcome (here e)
    perform here elsewhere (next result)
  | .evaluateBare e next => do
    let result ← I.outcome (elsewhere none e)
    perform here elsewhere (next result)
  | .evaluateIn env e next => do
    let result ← I.outcome (elsewhere (some env) e)
    perform here elsewhere (next result)

/-- Evaluates expressions from left to right, joining each value to a total by `op`. -/
def folded (op : Float → Float → Float) (start : Float) (below : Expr → n Float) (es : List Expr) :
    n Float :=
  es.foldlM (fun total e => do return op total (← below e)) start

variable [Library Code]

/-- The value of a node in `origin`, where `below` evaluates what is one node further down. -/
def ofNode (origin : Option (EnvOf Code)) (below : Option (EnvOf Code) → Expr → n Float) :
    Expr → n Float
  | .literal x sign => pure (sign.apply x)
  | .var name sign => do
    let e ← I.ofOutcome (boundTo origin name)
    return sign.apply (← below origin e)
  | .call name argument sign => do
    let program ← I.ofOutcome (calledBy origin name)
    let nested := fun started e => I.reported (below started e)
    return sign.apply (← I.perform (nested origin) nested (program argument))
  | .sum terms sign => do return sign.apply (← folded (· + ·) 0 (below origin) terms)
  | .product factors sign => do return sign.apply (← folded (· * ·) 1 (below origin) factors)
  | .power operands sign => do
    let (top, bases) ← I.ofOutcome (stacked operands)
    let start ← below origin top
    return sign.apply (← folded (fun exponent x => x.pow exponent) start (below origin) bases)

/-- Evaluates an expression under `depth` open nodes. -/
def walk (depth : Nat) (origin : Option (EnvOf Code)) (e : Expr) : n Float :=
  I.node origin depth e <|
    if depth < (limitsOf origin).maxEvalDepth then
      I.ofNode origin (fun started e => walk (depth + 1) started e) e
    else I.fail (.tooDeep (limitsOf origin).maxEvalDepth)
termination_by Limits.ceiling - depth
decreasing_by
  have := (limitsOf origin).maxEvalDepth_le_ceiling
  omega

/-- Evaluates an expression in an environment, if there is one, from its outermost node, and reports
a failure. -/
def evaluate (env : Option (EnvOf Code)) (depth : Nat) (e : Expr) : n Float :=
  I.reported (I.walk depth env e)

end Interpreter

/-! ## Relating the evaluators -/

/-- A relation between computations that start under a given number of open nodes, kept by all steps
of an evaluation. -/
structure Simulation {n : Type → Type} [Monad n] (I : Interpreter Code n)
    (R : Nat → ∀ {α : Type}, Run α → n α → Prop) : Prop where
  /-- Only machines with the given number of open nodes count. -/
  congr {d : Nat} {α : Type} {x x' : Run α} {y : n α}
    (heq : ∀ m : Machine, m.openNodes = d → x m = x' m) (h : R d x' y) : R d x y
  pure {d : Nat} {α : Type} (a : α) : R d (pure a) (pure a)
  bind {d : Nat} {α β : Type} {x : Run α} {y : n α} {f : α → Run β} {g : α → n β}
    (h : R d x y) (hnext : ∀ a, R d (f a) (g a)) : R d (x >>= f) (y >>= g)
  fail {d : Nat} {α : Type} (cause : EvalError) : R d (throw cause : Run α) (I.fail cause)
  draw {d : Nat} : R d Run.draw I.draw
  outcome {d : Nat} {x : Run Float} {y : n Float} (h : R d x y) : R d x.outcome (I.outcome y)
  reported {d : Nat} {x : Run Float} {y : n Float} (h : R d x y) : R d x.reported (I.reported y)
  refused {d : Nat} {origin : Option (EnvOf Code)}
    (hlimit : (limitsOf origin).maxEvalDepth ≤ d) (e : Expr) :
    R d (throw (.tooDeep (limitsOf origin).maxEvalDepth))
      (I.node origin d e (I.fail (.tooDeep (limitsOf origin).maxEvalDepth)))
  node {d : Nat} {origin : Option (EnvOf Code)} (hlimit : d < (limitsOf origin).maxEvalDepth)
    (e : Expr) {x : Run Float} {y : n Float} (h : R (d + 1) x y) :
    R d (Run.node (limitsOf origin).maxEvalDepth x) (I.node origin d e y)

namespace Simulation

variable {n : Type → Type} [Monad n] {I : Interpreter Code n}
  {R : Nat → ∀ {α : Type}, Run α → n α → Prop}

theorem ofOutcome (sim : Simulation I R) {d : Nat} {α : Type} (outcome : Except EvalError α) :
    R d (Run.ofOutcome outcome) (I.ofOutcome outcome) := by
  cases outcome with
  | ok a => exact sim.pure a
  | error cause => exact sim.fail cause

theorem perform (sim : Simulation I R) {d : Nat} {here : Expr → Run Float} {here' : Expr → n Float}
    {elsewhere : Option (EnvOf Code) → Expr → Run Float}
    {elsewhere' : Option (EnvOf Code) → Expr → n Float} (hhere : ∀ e, R d (here e) (here' e))
    (helsewhere : ∀ started e, R d (elsewhere started e) (elsewhere' started e))
    (program : ProgramOf Code) :
    R d (program.perform here elsewhere) (I.perform here' elsewhere' program) := by
  induction program with
  | done result => exact sim.ofOutcome result
  | draw next ih => exact sim.bind sim.draw ih
  | evaluate e next ih => exact sim.bind (sim.outcome (hhere e)) ih
  | evaluateBare e next ih => exact sim.bind (sim.outcome (helsewhere none e)) ih
  | evaluateIn env e next ih => exact sim.bind (sim.outcome (helsewhere (some env) e)) ih

theorem folded (sim : Simulation I R) {d : Nat} {below : Expr → Run Float}
    {below' : Expr → n Float} (h : ∀ e, R d (below e) (below' e)) (op : Float → Float → Float)
    (start : Float) (es : List Expr) :
    R d (Run.folded op start below es) (Interpreter.folded op start below' es) := by
  induction es generalizing start with
  | nil => exact sim.pure start
  | cons e es ih =>
    rw [Run.folded, Interpreter.folded, List.foldlM_cons, List.foldlM_cons]
    refine sim.bind (sim.bind (h e) fun x => sim.pure _) fun total => ?_
    exact ih total

variable [Library Code]

theorem ofNode (sim : Simulation I R) {d : Nat} {below : Option (EnvOf Code) → Expr → Run Float}
    {below' : Option (EnvOf Code) → Expr → n Float}
    (h : ∀ started e, R d (below started e) (below' started e)) (origin : Option (EnvOf Code))
    (e : Expr) : R d (Run.ofNode origin below e) (I.ofNode origin below' e) := by
  cases e with
  | literal x sign => exact sim.pure _
  | var name sign =>
    exact sim.bind (sim.ofOutcome _) fun e => sim.bind (h origin e) fun x => sim.pure _
  | call name argument sign =>
    refine sim.bind (sim.ofOutcome _) fun program => ?_
    have hnested := fun started e => sim.reported (h started e)
    exact sim.bind (sim.perform (hnested origin) hnested (program argument)) fun x => sim.pure _
  | sum terms sign => exact sim.bind (sim.folded (h origin) _ _ terms) fun x => sim.pure _
  | product factors sign => exact sim.bind (sim.folded (h origin) _ _ factors) fun x => sim.pure _
  | power operands sign =>
    refine sim.bind (sim.ofOutcome _) fun operands => ?_
    refine sim.bind (h origin operands.1) fun start => ?_
    exact sim.bind (sim.folded (h origin) _ _ _) fun x => sim.pure _

theorem walk (sim : Simulation I R) {fuel d : Nat} (hfuel : Limits.ceiling ≤ fuel + d)
    (origin : Option (EnvOf Code)) (e : Expr) :
    R d (Reckon.walk fuel origin e) (I.walk d origin e) := by
  refine walk_induction (motive := fun d origin e x => R d x (I.walk d origin e))
    (fun d origin e fuel hlimit => ?_) (fun d origin e fuel hlimit ih => ?_) hfuel origin e
  · rw [Interpreter.walk, if_neg (by omega)]
    refine sim.congr (fun m hm => ?_) (sim.refused hlimit e)
    rw [walk_refused (hm ▸ hlimit), Run.throw_apply]
  · rw [Interpreter.walk, if_pos hlimit]
    exact sim.node hlimit e (sim.ofNode ih origin e)

theorem evaluateNode (sim : Simulation I R) (origin : Option (EnvOf Code)) (d : Nat) (e : Expr) :
    R d (Reckon.evaluateNode origin e) (I.walk d origin e) := by
  have hfuel := Nat.le_add_of_sub_le (Nat.le_refl (Limits.ceiling - d))
  refine sim.congr (fun m hm => ?_) (sim.walk hfuel origin e)
  rw [Reckon.evaluateNode, hm]

/-- What is evaluated in an environment or without one is related. -/
theorem evaluate (sim : Simulation I R) (env : Option (EnvOf Code)) (d : Nat) (e : Expr) :
    R d (Reckon.evaluate env e) (I.evaluate env d e) := sim.reported (sim.evaluateNode env d e)

end Simulation

end Reckon
