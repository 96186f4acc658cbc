import Reckon.Expr.Basic

/-!
# Written expressions

An expression is written with brackets around every sum, product and power, and around the argument
of every call, so that the line reads back to an equal value.
-/

namespace Reckon.Expr

/-- A number as an operand of a line. The numbers that have no numeral are written as the divisions
that give them. -/
def literalChars (x : Float) : List Char :=
  if x.isNaN then "(0/0)".toList
  else if x.isInf then (if x < 0 then "-(1/0)".toList else "(1/0)".toList)
  else Layout.plain.chars x

mutual

/-- The characters of an expression. -/
def chars : Expr → List Char
  | literal x sign => literalChars (sign.apply x)
  | var name sign => sign.chars ++ name.toList
  | call function argument sign => sign.chars ++ function.toList ++ '(' :: chars argument ++ [')']
  | sum terms sign => sign.chars ++ '(' :: charsJoined '+' terms ++ [')']
  | product [] sign => sign.chars ++ "(1)".toList
  | product factors sign => sign.chars ++ '(' :: charsJoined '*' factors ++ [')']
  | power operands sign => sign.chars ++ '(' :: charsJoined '^' operands ++ [')']
termination_by structural e => e

/-- The characters of a list of expressions with `c` between them. -/
def charsJoined (c : Char) : List Expr → List Char
  | [] => []
  | e :: es => chars e ++ charsAfter c es
termination_by structural es => es

/-- The characters of a list of expressions with `c` before each of them. -/
def charsAfter (c : Char) : List Expr → List Char
  | [] => []
  | e :: es => c :: chars e ++ charsAfter c es
termination_by structural es => es

end

/-- The text of an expression. -/
def text (e : Expr) : String := String.ofList e.chars

end Reckon.Expr
