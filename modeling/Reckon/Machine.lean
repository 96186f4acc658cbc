import Reckon.Log

/-!
# The state of the evaluator

Evaluations share one `Machine`, also those that are started from inside a function call: it counts
the nodes that are being worked on, supplies random numbers and keeps the log. What it holds stays
when an evaluation fails.

The random numbers are spread evenly over `[0, 1)`. The state of their source runs through all words
in steps of an odd constant, and each word is mixed before its upper bits become a number.
-/

namespace Reckon

/-! ## Random numbers -/

/-- A source of random numbers. -/
structure Source where
  state : UInt64
deriving DecidableEq, Repr

namespace Source

/-- Spreads the bits of a word. -/
def mix (word : UInt64) : UInt64 :=
  let word := (word ^^^ (word >>> 30)) * 0xbf58476d1ce4e5b9
  let word := (word ^^^ (word >>> 27)) * 0x94d049bb133111eb
  word ^^^ (word >>> 31)

/-- The number whose first 53 binary places are the upper bits of a word. -/
def fraction (word : UInt64) : Float := (word >>> 11).toFloat / 9007199254740992

/-- Draws a number, which leaves the source changed. -/
def draw (source : Source) : Float × Source :=
  let state := source.state + 0x9e3779b97f4a7c15
  (fraction (mix state), ⟨state⟩)

end Source

/-! ## The machine -/

/-- What evaluations share. -/
structure Machine where
  /-- The number of nodes that are being worked on. -/
  openNodes : Nat
  source : Source
  /-- The records so far, the latest in front. -/
  log : List Record

namespace Machine

/-- No node open, an empty log. -/
def start (source : Source) : Machine := ⟨0, source, []⟩

/-- Adds records to the log, in the order of the list. -/
def tell (m : Machine) (records : List Record) : Machine :=
  { m with log := records.reverse ++ m.log }

end Machine

/-- A computation on a machine that may fail. -/
abbrev Run (α : Type) := ExceptT EvalError (StateM Machine) α

namespace Run

/-- A failure ends a computation and leaves the machine as it is. -/
theorem bind_apply (run : Run α) (next : α → Run β) (m : Machine) :
    (run >>= next) m =
      match run m with
      | (.ok a, m') => next a m'
      | (.error cause, m') => (.error cause, m') := by
  change (ExceptT.bindCont next (run m).1) (run m).2 = _
  obtain ⟨result, m'⟩ := run m
  cases result <;> rfl

@[simp] theorem pure_apply (a : α) (m : Machine) : (pure a : Run α) m = (.ok a, m) := rfl

@[simp] theorem throw_apply (cause : EvalError) (m : Machine) :
    (throw cause : Run α) m = (.error cause, m) := rfl

/-- The computation with a given outcome, which leaves the machine as it is. -/
def ofOutcome (outcome : Except EvalError α) : Run α := fun m => (outcome, m)

@[simp] theorem ofOutcome_apply (outcome : Except EvalError α) (m : Machine) :
    ofOutcome outcome m = (outcome, m) := rfl

/-- Looks at the outcome of a computation, which is no failure any more. -/
def outcome (run : Run α) : Run (Except EvalError α) := fun m => (.ok (run m).1, (run m).2)

/-- Draws a random number. -/
def draw : Run Float := fun m => (.ok m.source.draw.1, { m with source := m.source.draw.2 })

/-- Works on one node: not if `limit` nodes are open, and with one more open meanwhile. -/
def node (limit : Nat) (run : Run α) : Run α := fun m =>
  if limit ≤ m.openNodes then (.error (.tooDeep limit), m)
  else
    let done := run { m with openNodes := m.openNodes + 1 }
    (done.1, { done.2 with openNodes := done.2.openNodes - 1 })

/-- Records a failure in the log. -/
def reported (run : Run α) : Run α := fun m =>
  match run m with
  | (.ok a, m') => (.ok a, m')
  | (.error cause, m') => (.error cause, m'.tell [.evaluationFailed cause])

end Run

end Reckon
