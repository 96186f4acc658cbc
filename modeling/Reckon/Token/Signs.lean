import Reckon.Token.Scan

/-!
# Folding signs

A `+` or `-` is not an operator but a mark on the token right after it. Only the sign directly
before a token counts, so in a row of signs the last one decides.
-/

namespace Reckon

namespace Token

/-- A token as the one before it leaves it: a sign marks it, and a `-` makes it negative. -/
def signedBy (before : Option Token) (t : Token) : Token :=
  match before.map kind with
  | some .plus => { t with explicitSign := true }
  | some .minus => { t with explicitSign := true, sign := .negative }
  | _ => t

@[simp] theorem kind_signedBy (before : Option Token) (t : Token) :
    (t.signedBy before).kind = t.kind := by
  unfold signedBy
  split <;> rfl

@[simp] theorem span_signedBy (before : Option Token) (t : Token) :
    (t.signedBy before).span = t.span := by
  unfold signedBy
  split <;> rfl

/-- Folds the signs of tokens that come after `before`. -/
def foldSignsAfter (before : Option Token) : List Token → Except LexError (List Token)
  | [] =>
    match before with
    | some t => if t.kind.isSign then .error (.danglingSign t.span) else .ok []
    | none => .ok []
  | t :: rest => do
    let folded ← foldSignsAfter (some t) rest
    return if t.kind.isSign then folded else t.signedBy before :: folded

/-- Takes all signs out of a list of tokens and marks the tokens after them. -/
def foldSigns (tokens : List Token) : Except LexError (List Token) := foldSignsAfter none tokens

end Token

/-- The tokens of a line, with the signs folded into the tokens they stand before. -/
def tokenize (line : String) : Except LexError (List Token) := do
  Token.foldSigns (← Token.scan line)

end Reckon
