/-!
# Limits

Bounds on nesting, so that no line can exhaust the stack. Levels and nodes are counted in machine
words, so nothing nests deeper than the largest word.
-/

namespace Reckon

/-- How deep lines may nest and evaluations may go. -/
structure Limits where
  /-- Nesting of brackets and calls. The argument of a call lies one level below the call, as if it
  stood in brackets. -/
  maxDepth : Nat
  /-- The number asked for as `Limits.maxEvalDepth`. -/
  evalDepth : Nat
deriving DecidableEq, Repr

namespace Limits

/-- The limits where nothing else is said. -/
def standard : Limits := ⟨128, 512⟩

/-- The largest limit there is, `2 ^ 64 - 1`. -/
def ceiling : Nat := 0xffffffffffffffff

/-- Nodes open at a time during an evaluation, those of variables' values included. Whoever asks for
more than the ceiling gets the ceiling. -/
def maxEvalDepth (limits : Limits) : Nat := min limits.evalDepth ceiling

/-- The nesting that trees may have. A call and its bracketed argument are two levels of a tree but
one level of brackets in the line, hence the double of `maxDepth`. -/
def treeDepth (limits : Limits) : Nat := min (2 * limits.maxDepth) ceiling

/-- A counter that stops at the ceiling counts far enough for all limits. -/
theorem maxEvalDepth_le_ceiling (limits : Limits) : limits.maxEvalDepth ≤ ceiling :=
  Nat.min_le_right _ _

/-- Limits as a record of fields. -/
def description (limits : Limits) : String :=
  "Limits \x7b max_depth: " ++ toString limits.maxDepth ++ ", max_eval_depth: "
    ++ toString limits.maxEvalDepth ++ " \x7d"

end Limits

end Reckon
