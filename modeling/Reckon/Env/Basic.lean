import Reckon.Error
import Reckon.Expr.Basic
import Reckon.Limits

/-!
# Environments

An environment binds variables to expressions and function names to codes. It is plain data: a
`Library` says what calling a code does. Whatever is called gets the environment of the call, so it
may make another one from that, with more bindings or other limits or itself under another name, and
it gets its argument as an expression, unevaluated. A `ProgramOf` says what happens then: it may
evaluate expressions, as often as it likes and in any environment, and look at how that went.

The functions of an `Env` are their own codes. They use the environment of the call for nothing but
evaluating in it, which is all that the built-in functions need.
-/

namespace Reckon

/-! ## Environments of codes -/

/-- Bindings of variables and functions, with the limits that lines are compiled and evaluated
under. -/
structure EnvOf (Code : Type) where
  /-- The expressions bound to names, in the order in which the names were first bound. -/
  bindings : List (String × Expr)
  /-- The codes of the registered functions, in the order in which their names were first
  registered. -/
  functions : List (String × Code)
  limits : Limits

/-- What calling a function does. -/
inductive ProgramOf (Code : Type) where
  | done (result : Except EvalError Float)
  /-- Draws a random number from `[0, 1)`. -/
  | draw (next : Float → ProgramOf Code)
  /-- Evaluates an expression in the environment that the function is called in. -/
  | evaluate (e : Expr) (next : Except EvalError Float → ProgramOf Code)
  /-- Evaluates an expression without any environment. -/
  | evaluateBare (e : Expr) (next : Except EvalError Float → ProgramOf Code)
  /-- Evaluates an expression in another environment. -/
  | evaluateIn (env : EnvOf Code) (e : Expr) (next : Except EvalError Float → ProgramOf Code)

/-- Codes of functions, with their meaning. -/
class Library (Code : Type) where
  /-- What calling a code does, by the environment of the call and the argument. -/
  program : Code → EnvOf Code → Expr → ProgramOf Code

variable {Code : Type}

/-- The limits of an environment, or the standard ones without one. -/
def limitsOf (env : Option (EnvOf Code)) : Limits := (env.map EnvOf.limits).getD .standard

@[simp] theorem limitsOf_some (env : EnvOf Code) : limitsOf (some env) = env.limits := rfl

namespace EnvOf

/-- The expression bound to a name. -/
def lookup? (env : EnvOf Code) (name : String) : Option Expr := env.bindings.lookup name

/-- The code registered under a name. -/
def code? (env : EnvOf Code) (name : String) : Option Code := env.functions.lookup name

/-- Puts an entry in the place of an earlier one of the same name, or else at the end. -/
def put (name : String) (value : α) : List (String × α) → List (String × α)
  | [] => [(name, value)]
  | entry :: rest =>
    if entry.1 = name then (name, value) :: rest else entry :: put name value rest

/-- Binds a variable, instead of what it was bound to. -/
def bind (env : EnvOf Code) (name : String) (e : Expr) : EnvOf Code :=
  { env with bindings := put name e env.bindings }

/-- Registers a code, instead of the one that had its name. -/
def install (env : EnvOf Code) (name : String) (code : Code) : EnvOf Code :=
  { env with functions := put name code env.functions }

/-! ### What is bound after a change -/

/-- The name that was put has its new value, and all others have what they had. -/
theorem lookup_put (name other : String) (value : α) (entries : List (String × α)) :
    (put name value entries).lookup other =
      if other = name then some value else entries.lookup other := by
  induction entries with
  | nil =>
    by_cases h : other = name
    · simp [put, h]
    · simp [put, List.lookup_cons, h, beq_false_of_ne h]
  | cons entry rest ih =>
    obtain ⟨key, old⟩ := entry
    by_cases hk : key = name
    · subst hk
      by_cases h : other = key
      · simp [put, h]
      · simp [put, List.lookup_cons, h, beq_false_of_ne h]
    · by_cases h : other = key
      · subst h; simp [put, hk]
      · simp [put, List.lookup_cons, hk, beq_false_of_ne h, ih]

@[simp] theorem lookup?_bind (env : EnvOf Code) (name other : String) (e : Expr) :
    (env.bind name e).lookup? other = if other = name then some e else env.lookup? other :=
  lookup_put name other e env.bindings

@[simp] theorem code?_bind (env : EnvOf Code) (name other : String) (e : Expr) :
    (env.bind name e).code? other = env.code? other := rfl

@[simp] theorem limits_bind (env : EnvOf Code) (name : String) (e : Expr) :
    (env.bind name e).limits = env.limits := rfl

@[simp] theorem lookup?_install (env : EnvOf Code) (name other : String) (code : Code) :
    (env.install name code).lookup? other = env.lookup? other := rfl

@[simp] theorem code?_install (env : EnvOf Code) (name other : String) (code : Code) :
    (env.install name code).code? other = if other = name then some code else env.code? other :=
  lookup_put name other code env.functions

@[simp] theorem limits_install (env : EnvOf Code) (name : String) (code : Code) :
    (env.install name code).limits = env.limits := rfl

end EnvOf

/-! ## Environments of functions -/

/-- A function that is its own code. What calling it does is up to its argument; the environment of
the call is only there to evaluate in. -/
structure Function where
  program : Expr → ProgramOf Function

/-- What calling such a function does. -/
abbrev Program := ProgramOf Function

/-- An environment of such functions. -/
abbrev Env := EnvOf Function

@[default_instance]
instance : Library Function := ⟨fun function _ => function.program⟩

namespace Program

/-- Evaluates an expression in the calling environment and goes on with its value, or fails with it.
-/
def value (e : Expr) (next : Float → Program) : Program :=
  .evaluate e fun
    | .ok x => next x
    | .error cause => .done (.error cause)

/-- The program of a function of numbers: the value of the argument, mapped by `f`. -/
def unary (f : Float → Float) (argument : Expr) : Program :=
  value argument fun x => .done (.ok (f x))

end Program

/-- Nothing bound, nothing registered. -/
def Env.empty (limits : Limits) : Env := ⟨[], [], limits⟩

namespace EnvOf

/-- The function registered under a name. -/
def function? (env : Env) (name : String) : Option (Expr → Program) :=
  (env.code? name).map Function.program

/-- Registers a function, instead of the one that had its name. -/
def register (env : Env) (name : String) (program : Expr → Program) : Env :=
  env.install name ⟨program⟩

@[simp] theorem function?_bind (env : Env) (name other : String) (e : Expr) :
    (env.bind name e).function? other = env.function? other := rfl

@[simp] theorem lookup?_register (env : Env) (name other : String) (program : Expr → Program) :
    (env.register name program).lookup? other = env.lookup? other := rfl

@[simp] theorem function?_register (env : Env) (name other : String) (program : Expr → Program) :
    (env.register name program).function? other =
      if other = name then some program else env.function? other := by
  rw [function?, register, code?_install]
  split <;> rfl

@[simp] theorem limits_register (env : Env) (name : String) (program : Expr → Program) :
    (env.register name program).limits = env.limits := rfl

end EnvOf

end Reckon
