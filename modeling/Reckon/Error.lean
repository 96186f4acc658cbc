import Reckon.Token.Basic

/-!
# Errors

Each stage from the line to the value has its own causes of failure. The causes that lie in the text
of a line know where: `Error.span?`.
-/

namespace Reckon

/-- Why a line cannot be split into tokens. -/
inductive LexError where
  | invalidCharacter (char : Char) (span : Span)
  | malformedNumber (text : String) (span : Span)
  | danglingSign (span : Span)
deriving DecidableEq

namespace LexError

/-- Where the line is wrong. -/
def span : LexError → Span
  | invalidCharacter _ span => span
  | malformedNumber _ span => span
  | danglingSign span => span

/-- What is wrong, in words. -/
def message : LexError → String
  | invalidCharacter char _ => "invalid character '" ++ String.singleton char ++ "'"
  | malformedNumber text _ => "malformed number '" ++ text ++ "'"
  | danglingSign _ => "sign operator without an operand"

end LexError

/-- Why tokens cannot be arranged into a tree. -/
inductive GroupError where
  | unbalancedBrackets (span : Span)
  | missingArgument (function : String) (span : Span)
  | tooDeep (limit : Nat) (span : Span)
deriving DecidableEq

namespace GroupError

/-- Where the line is wrong. -/
def span : GroupError → Span
  | unbalancedBrackets span => span
  | missingArgument _ span => span
  | tooDeep _ span => span

/-- What is wrong, in words. -/
def message : GroupError → String
  | unbalancedBrackets _ => "unbalanced brackets"
  | missingArgument function _ => "function '" ++ function ++ "' is missing its argument"
  | tooDeep limit _ => "nesting deeper than " ++ toString limit ++ " levels"

end GroupError

/-- Why a tree has no expression. -/
inductive ParseError where
  | missingOperand (operator : String) (span : Span)
  | unexpectedToken (token : String) (span : Span)
  | tooDeep (limit : Nat)
deriving DecidableEq

namespace ParseError

/-- Where the line is wrong, unless it is only too deep. -/
def span? : ParseError → Option Span
  | missingOperand _ span => some span
  | unexpectedToken _ span => some span
  | tooDeep _ => none

/-- What is wrong, in words. -/
def message : ParseError → String
  | missingOperand operator _ => "operator '" ++ operator ++ "' is missing an operand"
  | unexpectedToken token _ => "unexpected token '" ++ token ++ "'"
  | tooDeep limit => "nesting deeper than " ++ toString limit ++ " levels"

end ParseError

/-- Why an expression has no value. -/
inductive EvalError where
  | unboundVariable (name : String)
  | unknownFunction (name : String)
  | contextRequired (name : String)
  | malformedPower (operands : Nat)
  | tooDeep (limit : Nat)
deriving DecidableEq

namespace EvalError

/-- What is wrong, in words. -/
def message : EvalError → String
  | unboundVariable name => "undefined variable '" ++ name ++ "'"
  | unknownFunction name => "unknown function '" ++ name ++ "'"
  | contextRequired name => "a context is required to evaluate '" ++ name ++ "'"
  | malformedPower operands =>
    "power with " ++ toString operands ++ " operand(s), expected at least 2"
  | tooDeep limit => "evaluation deeper than " ++ toString limit ++ " levels"

end EvalError

/-- Why a line has no value. -/
inductive Error where
  | lex (cause : LexError)
  | group (cause : GroupError)
  | parse (cause : ParseError)
  | eval (cause : EvalError)
deriving DecidableEq

namespace Error

/-- Where the line is wrong, if the cause lies in its text. -/
def span? : Error → Option Span
  | lex cause => some cause.span
  | group cause => some cause.span
  | parse cause => cause.span?
  | eval _ => none

/-- What is wrong, in words. -/
def message : Error → String
  | lex cause => cause.message
  | group cause => cause.message
  | parse cause => cause.message
  | eval cause => cause.message

end Error

end Reckon
