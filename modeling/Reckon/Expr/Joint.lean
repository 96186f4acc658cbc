import Reckon.Expr.Basic

/-!
# Assembling operands

The operands of a level stand in a row, each joined to the one before it in one of four ways.
`assemble` makes the terms of a sum of them: `^` binds first, then multiplication and division from
left to right, and an operand that is joined as an addend opens a new term.
-/

namespace Reckon

/-- How an operand is joined to the one before it. -/
inductive Joint where
  /-- Opens a new term. -/
  | adds
  /-- Multiplies, by `*` or by standing next to it. -/
  | multiplies
  | divides
  /-- Is the exponent. -/
  | raises
deriving DecidableEq, Repr

namespace Expr

/-- A base with its exponents: the base alone if there are none. -/
def tower (base : Expr) (exponents : List Expr) : Expr :=
  if exponents.isEmpty then base else power (base :: exponents) .positive

/-- A first factor, which is a base with its exponents, and the factors after it. A lone operand
without exponents is a term by itself. -/
def term (base : Expr) (exponents factors : List Expr) : Expr :=
  if exponents.isEmpty && factors.isEmpty then base
  else product (tower base exponents :: factors) .positive

/-- What a row of joined operands amounts to, seen from its front. -/
structure Assembly where
  /-- The exponents in front, whose base is still to come. -/
  exponents : List Expr
  /-- The factors after those, whose term is still to be opened. -/
  factors : List Expr
  /-- The finished terms. -/
  terms : List Expr

namespace Assembly

/-- Nothing joined yet. -/
def empty : Assembly := ⟨[], [], []⟩

/-- Joins an operand in front. -/
def join (joint : Joint) (e : Expr) (a : Assembly) : Assembly :=
  match joint with
  | .raises => { a with exponents := e :: a.exponents }
  | .multiplies => ⟨[], tower e a.exponents :: a.factors, a.terms⟩
  | .divides => ⟨[], inverse (tower e a.exponents) :: a.factors, a.terms⟩
  | .adds => ⟨[], [], term e a.exponents a.factors :: a.terms⟩

end Assembly

/-- The terms of a row of joined operands, the first of which opens a term. -/
def assemble (row : List (Joint × Expr)) : List Expr :=
  (row.foldr (fun part a => Assembly.join part.1 part.2 a) Assembly.empty).terms

end Expr

end Reckon
