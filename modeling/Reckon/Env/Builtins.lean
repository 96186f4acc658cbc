import Reckon.Env.Basic

/-!
# The built-in environment

The constants `pi` and `e` and the usual functions of one number. All but `Rand` are functions in
the mathematical sense.
-/

namespace Reckon

/-- Zero for both zeros; else one with the sign of the number, and no number for no number. -/
def signum (x : Float) : Float :=
  if x == 0 then 0 else if x.isNaN then x else if x < 0 then -1 else 1

/-- The functions of numbers, by name. -/
def unaryBuiltins : List (String × (Float → Float)) :=
  [("Asin", Float.asin), ("Acos", Float.acos), ("Atan", Float.atan),
    ("Sin", Float.sin), ("Cos", Float.cos), ("Tan", Float.tan),
    ("Sinh", Float.sinh), ("Cosh", Float.cosh), ("Tanh", Float.tanh),
    ("Ln", Float.log), ("Log", Float.log10), ("Abs", Float.abs),
    ("Ceil", Float.ceil), ("Floor", Float.floor), ("Round", Float.round),
    ("Sqrt", Float.sqrt), ("Exp", Float.exp), ("Sign", signum)]

/-- A random number between zero and the value of the argument. -/
def rand (argument : Expr) : Program :=
  .value argument fun x => .draw fun fraction => .done (.ok (x * fraction))

namespace Env

/-- The environment with the built-in constants and functions. -/
def builtins (limits : Limits) : Env :=
  let env := (((empty limits).bind "pi" (.literal 3.141592653589793 .positive)).bind "e"
    (.literal 2.718281828459045 .positive))
  let env := unaryBuiltins.foldl (fun env entry => env.register entry.1 (.unary entry.2)) env
  env.register "Rand" rand

end Env

end Reckon
