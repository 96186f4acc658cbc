import Reckon.Token.Basic

/-!
# Trees of tokens

A tree arranges the tokens of a line by brackets and calls.
-/

namespace Reckon

/-- A token, a bracketed list of trees, or a function with its argument. -/
inductive Tree where
  | leaf (token : Token)
  /-- The opening bracket is missing at the top of a line only. -/
  | group (opener : Option Token) (items : List Tree)
  | call (function : Token) (argument : Tree)

namespace Tree

/-- The token that a tree starts with, if it starts with one. -/
def head? : Tree → Option Token
  | leaf token => some token
  | group opener _ => opener
  | call function _ => some function

/-- The sign before a tree. -/
def sign (t : Tree) : Sign := (t.head?.map Token.sign).getD .positive

/-- Whether a `+` or `-` stands directly before a tree. -/
def explicitSign (t : Tree) : Bool := (t.head?.map Token.explicitSign).getD false

/-- Where a tree starts. A group without a bracket has no place of its own. -/
def span (t : Tree) : Span := (t.head?.map Token.span).getD ⟨0, 0⟩

/-- The trees between the brackets of a group. -/
def items : Tree → List Tree
  | group _ items => items
  | _ => []

/-- The token of a leaf that is a function still without its argument. -/
def function? : Tree → Option Token
  | leaf token =>
    match token.kind with
    | .function _ => some token
    | _ => none
  | _ => none

end Tree

end Reckon
