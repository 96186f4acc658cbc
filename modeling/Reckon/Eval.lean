import Reckon.Env.Basic
import Reckon.Machine

/-!
# Evaluation

Every node of an expression that is worked on counts against the limit of the environment, together
with all nodes above it, through the values of variables and the evaluations that functions start in
whatever environment. No limit is above the ceiling, so the number of nodes that are missing to the
ceiling bounds the recursion.
-/

namespace Reckon

variable {Code : Type}

/-! ## Walking an expression -/

/-- The expression that a variable is bound to. -/
def boundTo (origin : Option (EnvOf Code)) (name : String) : Except EvalError Expr :=
  match origin with
  | none => .error (.contextRequired name)
  | some env =>
    match env.lookup? name with
    | none => .error (.unboundVariable name)
    | some e => .ok e

/-- What calling a name does, by the argument of the call. -/
def calledBy [Library Code] (origin : Option (EnvOf Code)) (name : String) :
    Except EvalError (Expr → ProgramOf Code) :=
  match origin with
  | none => .error (.contextRequired name)
  | some env =>
    match env.code? name with
    | none => .error (.unknownFunction name)
    | some code => .ok (Library.program code env)

/-- A name calls the function that is registered under it. -/
theorem calledBy_some (env : Env) (name : String) :
    calledBy (some env) name =
      match env.function? name with
      | none => .error (.unknownFunction name)
      | some program => .ok program := by
  rw [calledBy, EnvOf.function?]
  cases env.code? name <;> rfl

/-- The topmost operand of a power and the operands below it, from top to bottom. -/
def stacked (operands : List Expr) : Except EvalError (Expr × List Expr) :=
  match operands.reverse with
  | top :: base :: bases => .ok (top, base :: bases)
  | _ => .error (.malformedPower operands.length)

/-- Runs a program: `here` evaluates expressions in the environment of the call, and `elsewhere` in
any other one or in none. -/
def ProgramOf.perform (here : Expr → Run Float)
    (elsewhere : Option (EnvOf Code) → Expr → Run Float) : ProgramOf Code → Run Float
  | done result => Run.ofOutcome result
  | draw next => do
    let x ← Run.draw
    (next x).perform here elsewhere
  | evaluate e next => do
    let result ← (here e).outcome
    (next result).perform here elsewhere
  | evaluateBare e next => do
    let result ← (elsewhere none e).outcome
    (next result).perform here elsewhere
  | evaluateIn env e next => do
    let result ← (elsewhere (some env) e).outcome
    (next result).perform here elsewhere

namespace Run

/-- Evaluates expressions from left to right, joining each value to a total by `op`. -/
def folded (op : Float → Float → Float) (start : Float) (below : Expr → Run Float)
    (es : List Expr) : Run Float :=
  es.foldlM (fun total e => do return op total (← below e)) start

/-- The value of a node in `origin`, where `below` evaluates what is one node further down. A sum
starts from zero and a product from one; a power starts from its top. What a function evaluates is
an evaluation of its own, which reports its failure. -/
def ofNode [Library Code] (origin : Option (EnvOf Code))
    (below : Option (EnvOf Code) → Expr → Run Float) : Expr → Run Float
  | .literal x sign => pure (sign.apply x)
  | .var name sign => do
    let e ← ofOutcome (boundTo origin name)
    return sign.apply (← below origin e)
  | .call name argument sign => do
    let program ← ofOutcome (calledBy origin name)
    let nested := fun started e => (below started e).reported
    return sign.apply (← (program argument).perform (nested origin) nested)
  | .sum terms sign => do return sign.apply (← folded (· + ·) 0 (below origin) terms)
  | .product factors sign => do return sign.apply (← folded (· * ·) 1 (below origin) factors)
  | .power operands sign => do
    let (top, bases) ← ofOutcome (stacked operands)
    let start ← below origin top
    return sign.apply (← folded (fun exponent x => x.pow exponent) start (below origin) bases)

end Run

/-- Evaluates an expression where `fuel` nodes are missing to the ceiling. -/
def walk [Library Code] : Nat → Option (EnvOf Code) → Expr → Run Float
  | 0, origin, _ => throw (.tooDeep (limitsOf origin).maxEvalDepth)
  | fuel + 1, origin, e =>
    Run.node (limitsOf origin).maxEvalDepth (Run.ofNode origin (walk fuel) e)

/-- Evaluates an expression as one more node below those that are open. -/
def evaluateNode [Library Code] (origin : Option (EnvOf Code)) (e : Expr) : Run Float := fun m =>
  walk (Limits.ceiling - m.openNodes) origin e m

/-- Evaluates an expression in an environment, if there is one, and reports a failure. -/
def evaluate [Library Code] (env : Option (EnvOf Code)) (e : Expr) : Run Float :=
  (evaluateNode env e).reported

/-- Calls a function directly, if it is registered. -/
def EnvOf.call? [Library Code] (env : EnvOf Code) (name : String) (argument : Expr) :
    Option (Run Float) :=
  (env.code? name).map fun code =>
    (Library.program code env argument).perform (evaluate (some env)) evaluate

/-! ## Recursion up to the ceiling -/

/-- At the limit a node is refused on any fuel, also where none is left. -/
theorem walk_refused [Library Code] {origin : Option (EnvOf Code)} {m : Machine}
    (h : (limitsOf origin).maxEvalDepth ≤ m.openNodes) (fuel : Nat) (e : Expr) :
    walk fuel origin e m = (.error (.tooDeep (limitsOf origin).maxEvalDepth), m) := by
  cases fuel with
  | zero => rfl
  | succ fuel => rw [walk, Run.node, if_pos h]

/-- What holds of refused nodes, and of a node that is worked on as soon as it holds one node
further down, holds of all nodes. The induction is on what is missing to the ceiling, since neither
the environment nor the expression gets smaller: a function may evaluate anything anywhere. -/
theorem walk_induction [Library Code]
    {motive : Nat → Option (EnvOf Code) → Expr → Run Float → Prop}
    (refused : ∀ d origin e fuel, (limitsOf origin).maxEvalDepth ≤ d →
      motive d origin e (walk fuel origin e))
    (node : ∀ d origin e fuel, d < (limitsOf origin).maxEvalDepth →
      (∀ started e', motive (d + 1) started e' (walk fuel started e')) →
      motive d origin e (Run.node (limitsOf origin).maxEvalDepth (Run.ofNode origin (walk fuel) e)))
    {fuel d : Nat} (hfuel : Limits.ceiling ≤ fuel + d) (origin : Option (EnvOf Code)) (e : Expr) :
    motive d origin e (walk fuel origin e) := by
  induction fuel generalizing d origin e with
  | zero =>
    have hceiling := (limitsOf origin).maxEvalDepth_le_ceiling
    exact refused d origin e 0 (by omega)
  | succ fuel ih =>
    by_cases hlimit : d < (limitsOf origin).maxEvalDepth
    · exact node d origin e fuel hlimit fun started e' => ih (by omega) started e'
    · exact refused d origin e (fuel + 1) (Nat.le_of_not_lt hlimit)

end Reckon
