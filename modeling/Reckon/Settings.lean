import Reckon.Log
import Reckon.Text.Basic

/-!
# Limits from settings

Two settings, given as text, replace the standard limits. A setting that is not a number is ignored,
and the log says so.
-/

namespace Reckon.Settings

/-- The setting for `Limits.maxDepth`. -/
def maxDepthName : String := "EXPR_CALC_MAX_DEPTH"

/-- The setting for `Limits.maxEvalDepth`. -/
def maxEvalDepthName : String := "EXPR_CALC_MAX_EVAL_DEPTH"

/-- The number written by ASCII digits, at least one of them, after an optional `+`, unless it is
above `Limits.ceiling`. -/
def number? (cs : List Char) : Option Nat :=
  let digits :=
    match cs with
    | '+' :: rest => rest
    | _ => cs
  let n := Nat.ofDigitChars 10 digits 0
  if digits.isEmpty || !digits.all Char.isDigit || Limits.ceiling < n then none else some n

/-- The limit that a setting gives, and what there is to say about it. Blanks around the number do
not count. -/
def limit (name : String) (value : Option String) (standard : Nat) : Nat × List Record :=
  match value with
  | none => (standard, [])
  | some value =>
    match number? (Text.trimChars value.toList) with
    | some n => (n, [])
    | none => (standard, [.settingIgnored name value])

/-- The limits that the two settings give, with the records of how they came about. -/
def limits (maxDepth maxEvalDepth : Option String) : Limits × List Record :=
  let (depth, depthRecords) := limit maxDepthName maxDepth Limits.standard.maxDepth
  let (evalDepth, evalDepthRecords) :=
    limit maxEvalDepthName maxEvalDepth Limits.standard.maxEvalDepth
  let limits : Limits := ⟨depth, evalDepth⟩
  (limits, depthRecords ++ evalDepthRecords ++ [.limitsSet limits])

end Reckon.Settings
