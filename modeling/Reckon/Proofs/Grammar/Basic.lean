import Reckon.Expr.Basic

/-!
# The grammar of lines

The derivations of a line over its tokens, signs already folded: `Sum tokens` is the type of the
derivations of `tokens`, and `Sum.expr` is the expression that a derivation stands for. Of signs and
marks only those count that stand before an operand.
-/

namespace Reckon.Grammar

/-- Whether a `+` or `-` stood directly before the first token. -/
def startsSigned (tokens : List Token) : Bool := tokens.head?.any Token.explicitSign

mutual

/-- `Operand ::= Number | Variable | Open Sum Close | Function Operand` -/
inductive Operand : List Token → Type where
  | number {t : Token} (value : Float) (h : t.kind = .number value) : Operand [t]
  | var {t : Token} (name : String) (h : t.kind = .var name) : Operand [t]
  | bracket {o c : Token} {ts : List Token} (ho : o.kind = .openBracket) (level : Sum ts)
      (hc : c.kind = .closeBracket) : Operand (o :: (ts ++ [c]))
  | call {f : Token} {ts : List Token} (name : String) (h : f.kind = .function name)
      (argument : Operand ts) : Operand (f :: ts)

/-- `Power ::= Operand Exponents` -/
inductive Power : List Token → Type where
  | mk {ts us : List Token} (base : Operand ts) (exponents : Exponents us) : Power (ts ++ us)

/-- `Exponents ::= ('^' Operand)*` -/
inductive Exponents : List Token → Type where
  | nil : Exponents []
  | cons {t : Token} {ts us : List Token} (h : t.kind = .power) (exponent : Operand ts)
      (rest : Exponents us) : Exponents (t :: (ts ++ us))

/-- `Factor ::= '*' Power | '/' Power | Power`, the last one without a sign before it -/
inductive Factor : List Token → Type where
  | times {t : Token} {ts : List Token} (h : t.kind = .times) (power : Power ts) : Factor (t :: ts)
  | divide {t : Token} {ts : List Token} (h : t.kind = .divide) (power : Power ts) :
      Factor (t :: ts)
  | next {ts : List Token} (h : startsSigned ts = false) (power : Power ts) : Factor ts

/-- `Factors ::= Factor*` -/
inductive Factors : List Token → Type where
  | nil : Factors []
  | cons {ts us : List Token} (factor : Factor ts) (rest : Factors us) : Factors (ts ++ us)

/-- `Term ::= Power Factors` -/
inductive Term : List Token → Type where
  | mk {ts us : List Token} (first : Power ts) (factors : Factors us) : Term (ts ++ us)

/-- `Addends ::= Term*`, each with a sign before it -/
inductive Addends : List Token → Type where
  | nil : Addends []
  | cons {ts us : List Token} (h : startsSigned ts = true) (term : Term ts) (rest : Addends us) :
      Addends (ts ++ us)

/-- `Sum ::= empty | Term Addends` -/
inductive Sum : List Token → Type where
  | empty : Sum []
  | terms {ts us : List Token} (first : Term ts) (rest : Addends us) : Sum (ts ++ us)

end

/-! ## What a derivation stands for -/

mutual

/-- An operand has the sign of its first token. -/
def Operand.expr {ts : List Token} : Operand ts → Expr
  | .number (t := t) value _ => .literal value t.sign
  | .var (t := t) name _ => .var name t.sign
  | .bracket (o := o) _ level _ => .sum level.exprs o.sign
  | .call (f := f) name _ argument => .call name argument.expr f.sign
termination_by structural a => a

/-- The exponents in their order. -/
def Exponents.exprs {ts : List Token} : Exponents ts → List Expr
  | .nil => []
  | .cons _ exponent rest => exponent.expr :: rest.exprs
termination_by structural a => a

/-- A base without exponents is itself, and a chain of operands is one power. -/
def Power.expr {ts : List Token} : Power ts → Expr
  | .mk base .nil => base.expr
  | .mk base (.cons _ exponent rest) =>
    .power (base.expr :: exponent.expr :: rest.exprs) .positive
termination_by structural a => a

/-- To divide is to multiply by the inverse. -/
def Factor.expr {ts : List Token} : Factor ts → Expr
  | .times _ power => power.expr
  | .divide _ power => Expr.inverse power.expr
  | .next _ power => power.expr
termination_by structural a => a

/-- The factors in their order. -/
def Factors.exprs {ts : List Token} : Factors ts → List Expr
  | .nil => []
  | .cons factor rest => factor.expr :: rest.exprs
termination_by structural a => a

/-- What a power stands for as a term without further factors: a single operand is a term by itself,
and a chain is the only factor of a product. -/
def Power.term {ts : List Token} : Power ts → Expr
  | .mk base .nil => base.expr
  | .mk base (.cons _ exponent rest) =>
    .product [.power (base.expr :: exponent.expr :: rest.exprs) .positive] .positive
termination_by structural a => a

/-- With further factors, a term is the product of all of them. -/
def Term.expr {ts : List Token} : Term ts → Expr
  | .mk first factors =>
    match factors.exprs with
    | [] => first.term
    | e :: es => .product (first.expr :: e :: es) .positive
termination_by structural a => a

/-- The further terms in their order. -/
def Addends.exprs {ts : List Token} : Addends ts → List Expr
  | .nil => []
  | .cons _ term rest => term.expr :: rest.exprs
termination_by structural a => a

/-- The terms in their order. -/
def Sum.exprs {ts : List Token} : Sum ts → List Expr
  | .empty => []
  | .terms first rest => first.expr :: rest.exprs
termination_by structural a => a

end

/-- A whole line is a sum without a sign. -/
def Sum.expr {ts : List Token} (s : Sum ts) : Expr := .sum s.exprs .positive

end Reckon.Grammar
