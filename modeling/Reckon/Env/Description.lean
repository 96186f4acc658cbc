import Reckon.Env.Basic
import Reckon.Log

/-!
# Described environments

An environment as text with every constructor spelled out: its bindings, the names of its functions
in the order of their characters, and its limits.
-/

namespace Reckon

/-- A sign in words. -/
def Sign.description : Sign → String
  | positive => "Positive"
  | negative => "Negative"

namespace Expr

mutual

/-- An expression as the constructors that make it up. -/
def description : Expr → String
  | literal x sign => "Literal(" ++ Layout.marked.text x ++ ", " ++ sign.description ++ ")"
  | var name sign => "Variable(" ++ Text.quoted name ++ ", " ++ sign.description ++ ")"
  | call function argument sign =>
    "Call(" ++ Text.quoted function ++ ", " ++ argument.description ++ ", " ++ sign.description
      ++ ")"
  | sum terms sign => "Sum([" ++ descriptions terms ++ "], " ++ sign.description ++ ")"
  | product factors sign => "Product([" ++ descriptions factors ++ "], " ++ sign.description ++ ")"
  | power operands sign => "Power([" ++ descriptions operands ++ "], " ++ sign.description ++ ")"

/-- The descriptions of some expressions, with commas between them. -/
def descriptions : List Expr → String
  | [] => ""
  | [e] => e.description
  | e :: rest => e.description ++ ", " ++ descriptions rest

end

end Expr

namespace Env

/-- An environment in words. -/
def description (env : Env) : String :=
  let bindings := env.bindings.map fun binding =>
    Text.quoted binding.1 ++ ": " ++ binding.2.description
  let names := (env.functions.map Prod.fst).mergeSort fun a b => !decide (b < a)
  "Context \x7b variables: \x7b" ++ String.intercalate ", " bindings ++ "\x7d, functions: ["
    ++ String.intercalate ", " (names.map Text.quoted) ++ "], limits: " ++ env.limits.description
    ++ " \x7d"

end Env

end Reckon
