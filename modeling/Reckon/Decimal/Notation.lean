import Reckon.Decimal.Shortest

/-!
# Numbers as text

A `Layout` decides how the digits of a decimal are laid out. `Layout.plain` is positional whatever
the size of the number and shows a point only before a fraction. `Layout.marked` shows every number
with a point or with an exponent.

A numeral is a run of digits with at most one point among or around them and at least one digit.
`Decimal.ofNumeral?` reads one as the exact decimal it stands for.
-/

namespace Reckon

/-! ## Writing -/

/-- How a decimal is laid out. -/
structure Layout where
  /-- Digits after the point, at least. -/
  places : Nat
  /-- Whether a number whose leading digit stands for this power of ten is written without an
  exponent. -/
  positional : Int → Bool

namespace Layout

/-- No exponent and no needless point. -/
def plain : Layout := ⟨0, fun _ => true⟩

/-- At least one place, and an exponent from `10 ^ 16` up and below `10 ^ -4`. -/
def marked : Layout := ⟨1, fun power => -4 ≤ power && power < 16⟩

end Layout

namespace Decimal

/-- The power of ten that the leading digit of a decimal stands for. -/
def leadingPower (d : Decimal) : Int :=
  d.exponent + ((Nat.toDigits 10 d.coefficient).length - 1 : Nat)

/-- The whole part and the fraction of `coefficient * 10 ^ exponent`, as digits. -/
def split (d : Decimal) : List Char × List Char :=
  let digits := Nat.toDigits 10 d.coefficient
  let shift := (-d.exponent).toNat
  if shift < digits.length then
    (digits.take (digits.length - shift) ++ List.replicate d.exponent.toNat '0',
      digits.drop (digits.length - shift))
  else (['0'], List.replicate (shift - digits.length) '0' ++ digits)

/-- A whole part and a fraction, with a point between them unless the fraction is empty. -/
def pointed (whole fraction : List Char) : List Char :=
  if fraction.isEmpty then whole else whole ++ '.' :: fraction

/-- A decimal without an exponent, its fraction filled up with zeros to `places` digits. -/
def positionalChars (places : Nat) (d : Decimal) : List Char :=
  pointed d.split.1 (d.split.2 ++ List.replicate (places - d.split.2.length) '0')

/-- A decimal with an exponent: one digit before the point, and no point after a single digit. -/
def exponentChars (d : Decimal) : List Char :=
  let digits := Nat.toDigits 10 d.coefficient
  pointed (digits.take 1) (digits.drop 1) ++ 'e' :: (toString d.leadingPower).toList

/-- A decimal in a given layout. -/
def chars (layout : Layout) (d : Decimal) : List Char :=
  if layout.positional d.leadingPower then d.positionalChars layout.places else d.exponentChars

end Decimal

namespace Layout

/-- A number in a given layout: the shortest decimal that rounds to it. Negative zero has a sign,
the number that is not a number has none. -/
def chars (layout : Layout) (x : Float) : List Char :=
  if x.isNaN then ['N', 'a', 'N']
  else
    let magnitude :=
      if x.isInf then ['i', 'n', 'f'] else (Decimal.shortest (Decimal.rank x)).chars layout
    if Decimal.signBit x then '-' :: magnitude else magnitude

/-- The text of a number in a given layout. -/
def text (layout : Layout) (x : Float) : String := String.ofList (layout.chars x)

end Layout

/-! ## Reading -/

namespace Decimal

/-- Whether a character can stand in a numeral. -/
def isNumeralChar (c : Char) : Bool := c.isDigit || c == '.'

/-- The decimal with the given digits before and after the point. -/
def ofDigits (whole fraction : List Char) : Decimal :=
  ⟨Nat.ofDigitChars 10 (whole ++ fraction) 0, -(fraction.length : Int)⟩

/-- The decimal that a run of digits and points stands for, unless it has no digit or a second
point. -/
def ofNumeral? (cs : List Char) : Option Decimal :=
  let whole := cs.takeWhile (· != '.')
  let fraction := (cs.dropWhile (· != '.')).drop 1
  if fraction.contains '.' || (whole ++ fraction).isEmpty then none
  else some (ofDigits whole fraction)

/-- The number nearest the decimal that a run of digits and points stands for. -/
def readNumeral? (cs : List Char) : Option Float := (ofNumeral? cs).map toFloat

end Decimal

end Reckon
