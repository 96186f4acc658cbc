import Reckon.Decimal.Notation

/-!
# Tokens

A token is a piece of a line: what it is, the sign that stood before it, and where it stands.
-/

namespace Reckon

/-- A stretch of a line, in characters: from `start` up to `stop`, which lies outside. -/
structure Span where
  start : Nat
  stop : Nat
deriving DecidableEq, Repr

/-- The sign of an operand. -/
inductive Sign where
  | positive
  | negative
deriving DecidableEq, Repr

namespace Sign

/-- The value of an operand with this sign, from its value without: the same or its negation. -/
def apply : Sign → Float → Float
  | positive, x => x
  | negative, x => -x

/-- How the sign is written before an operand. -/
def chars : Sign → List Char
  | positive => []
  | negative => ['-']

end Sign

namespace Token

/-- What a token is. Brackets of all flavours are alike. -/
inductive Kind where
  | number (value : Float)
  | var (name : String)
  | function (name : String)
  | openBracket
  | closeBracket
  | plus
  | minus
  | times
  | divide
  | power
deriving DecidableEq

namespace Kind

/-- Whether a token of this kind can be an operand or the head of one. -/
def isValue : Kind → Bool
  | number _ | var _ | function _ => true
  | _ => false

/-- Whether a token of this kind is a sign. -/
def isSign : Kind → Bool
  | plus | minus => true
  | _ => false

/-- How a token of this kind is called in messages. -/
def name : Kind → String
  | number x => Layout.plain.text x
  | var s => s
  | function s => s
  | openBracket => "("
  | closeBracket => ")"
  | plus => "+"
  | minus => "-"
  | times => "*"
  | divide => "/"
  | power => "^"

end Kind

end Token

/-- A token with the sign folded into it and its place in the line. -/
structure Token where
  kind : Token.Kind
  sign : Sign
  /-- Whether a `+` or `-` stood directly before this token. -/
  explicitSign : Bool
  span : Span
deriving DecidableEq

namespace Token

/-- A token as it is scanned, before signs are folded. -/
def plain (kind : Kind) (span : Span) : Token := ⟨kind, .positive, false, span⟩

/-- The text of a token: its sign and its name. -/
def text (t : Token) : String := String.ofList t.sign.chars ++ t.kind.name

end Token

end Reckon
