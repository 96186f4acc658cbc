import Reckon.Token.Basic

/-!
# Expressions

An expression is a sum of products of powers over literals, variables, calls and sums in brackets.
Every node has a sign.
-/

namespace Reckon

/-- An expression. -/
inductive Expr where
  | literal (value : Float) (sign : Sign)
  | var (name : String) (sign : Sign)
  | call (function : String) (argument : Expr) (sign : Sign)
  | sum (terms : List Expr) (sign : Sign)
  | product (factors : List Expr) (sign : Sign)
  /-- A tower of at least two operands, worked off from its top. -/
  | power (operands : List Expr) (sign : Sign)

namespace Expr

/-- The sign of the outermost node. -/
def sign : Expr → Sign
  | literal _ sign | var _ sign | call _ _ sign | sum _ sign | product _ sign | power _ sign => sign

/-- The expressions directly below the outermost node. -/
def children : Expr → List Expr
  | literal _ _ | var _ _ => []
  | call _ argument _ => [argument]
  | sum es _ | product es _ | power es _ => es

/-- What the outermost node is, in a word. -/
def kindName : Expr → String
  | literal _ _ => "literal"
  | var _ _ => "variable"
  | call _ _ _ => "call"
  | sum _ _ => "sum"
  | product _ _ => "product"
  | power _ _ => "power"

/-- The operand to the power of minus one: what dividing by it multiplies with. -/
def inverse (operand : Expr) : Expr := power [operand, literal (-1) .positive] .positive

end Expr

end Reckon
