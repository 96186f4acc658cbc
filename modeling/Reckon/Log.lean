import Reckon.Error
import Reckon.Limits
import Reckon.Text.Basic

/-!
# Log records

What is worth telling about the work on a line, each record with its level.
-/

namespace Reckon

/-- How urgent a record is. -/
inductive Level where
  | trace
  | debug
  | warn
deriving DecidableEq, Repr

/-- The name of a level. -/
def Level.name : Level → String
  | trace => "TRACE"
  | debug => "DEBUG"
  | warn => "WARN"

/-- Something that happened. -/
inductive Record where
  /-- A line of `bytes` bytes has become tokens. -/
  | tokenized (bytes tokens : Nat)
  | grouped (items : Nat)
  | parsed (terms : Nat)
  | evaluationFailed (cause : EvalError)
  /-- A setting has a value that is not a limit. -/
  | settingIgnored (setting value : String)
  | limitsSet (limits : Limits)
deriving DecidableEq

namespace Record

/-- The level of a record. -/
def level : Record → Level
  | tokenized _ _ | grouped _ | parsed _ => .trace
  | evaluationFailed _ | limitsSet _ => .debug
  | settingIgnored _ _ => .warn

/-- What a record says. -/
def message : Record → String
  | tokenized bytes tokens =>
    "tokenized " ++ toString bytes ++ " characters into " ++ toString tokens ++ " tokens"
  | grouped items => "grouped " ++ toString items ++ " top level items"
  | parsed terms => "parsed " ++ toString terms ++ " top level terms"
  | evaluationFailed cause => "evaluation failed: " ++ cause.message
  | settingIgnored setting value =>
    "ignoring " ++ setting ++ "=" ++ Text.quoted value ++ ", expected a positive integer"
  | limitsSet limits => "using " ++ limits.description

/-- A record as a line of a log. -/
def text (r : Record) : String := r.level.name ++ " " ++ r.message

end Record

end Reckon
