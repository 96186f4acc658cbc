import Reckon.Error

/-!
# Splitting a line into tokens

A line falls apart into lexemes: the longest runs of letters, the longest runs of digits and points,
and all other characters one by one. Each lexeme is one token, or the reason why there are none.
-/

namespace Reckon

/-- Whether a lexeme that has reached the first of two neighbouring characters goes on with the
second. -/
def sameRun (a b : Char) : Bool :=
  (a.isAlpha && b.isAlpha) || (Decimal.isNumeralChar a && Decimal.isNumeralChar b)

/-- The lexemes of a line, in order; together they are the line. -/
def lexemes (line : List Char) : List (List Char) := line.splitBy sameRun

namespace Token

/-- The operator or bracket that a character stands for. -/
def Kind.ofSymbol? : Char → Option Kind
  | '+' => some .plus
  | '-' => some .minus
  | '*' => some .times
  | '/' => some .divide
  | '^' => some .power
  | '(' | '{' | '[' => some .openBracket
  | ')' | '}' | ']' => some .closeBracket
  | _ => none

/-- What the lexeme `c :: rest` at a given place is. A word is a function if it starts in upper
case. -/
def Kind.ofLexeme (span : Span) (c : Char) (rest : List Char) : Except LexError Kind :=
  let text := String.ofList (c :: rest)
  if c.isUpper then .ok (.function text)
  else if c.isLower then .ok (.var text)
  else if Decimal.isNumeralChar c then
    match Decimal.readNumeral? (c :: rest) with
    | some value => .ok (.number value)
    | none => .error (.malformedNumber text span)
  else
    match Kind.ofSymbol? c with
    | some kind => .ok kind
    | none => .error (.invalidCharacter c span)

/-- The tokens of a list of lexemes that starts at character `start` of its line. -/
def ofLexemes (start : Nat) : List (List Char) → Except LexError (List Token)
  | [] => .ok []
  | [] :: words => ofLexemes start words
  | (c :: rest) :: words => do
    let span : Span := ⟨start, start + (c :: rest).length⟩
    let kind ← Kind.ofLexeme span c rest
    let tokens ← ofLexemes span.stop words
    return plain kind span :: tokens

/-- The tokens of a line, with `+` and `-` as tokens of their own. -/
def scan (line : String) : Except LexError (List Token) := ofLexemes 0 (lexemes line.toList)

end Token

end Reckon
