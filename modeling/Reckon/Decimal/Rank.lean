/-!
# Ranks of binary floating point magnitudes

Without its sign bit, the pattern of a binary64 number is a natural number that grows with the
magnitude: its *rank*. `weight` gives back the magnitude of a rank, exactly, and `nearestRank` finds
the rank to which a decimal rounds: the first one whose upper midpoint the decimal does not pass.
-/

namespace Reckon

/-- The number `coefficient * 10 ^ exponent`. -/
structure Decimal where
  coefficient : Nat
  exponent : Int
deriving DecidableEq, Repr

namespace Decimal

/-- What the sign bit of a bit pattern counts, `2 ^ 63`. -/
def signPlace : Nat := 0x8000000000000000

/-- The number of ranks from one power of two to the next, `2 ^ 52`. -/
def binade : Nat := 0x10000000000000

/-- The rank of a number's magnitude: its bit pattern without the sign bit. -/
def rank (x : Float) : Nat := x.toBits.toNat % signPlace

/-- Whether the sign bit of a number is set. -/
def signBit (x : Float) : Bool := signPlace ≤ x.toBits.toNat

/-- The non-negative number of a rank. -/
def ofRank (r : Nat) : Float := Float.ofBits (UInt64.ofNat r)

/-- The rank of infinity, next after the largest finite magnitude. -/
def infinity : Nat := 2047 * binade

/-- The magnitude of rank `r` in units of `2 ^ -1074`. The weight of `infinity` is the power of two
at which the finite magnitudes end. -/
def weight (r : Nat) : Nat :=
  if r < binade then r else (binade + r % binade) * Nat.pow 2 (r / binade - 1)

/-- Twice the midpoint between the magnitudes of ranks `r` and `r + 1`, in units of `2 ^ -1074`. -/
def midpoint (r : Nat) : Nat := weight r + weight (r + 1)

/-- The numerator of a decimal as a fraction of units of `2 ^ -1075`. -/
def numerator (d : Decimal) : Nat := d.coefficient * Nat.pow 10 d.exponent.toNat * Nat.pow 2 1075

/-- The denominator that goes with `numerator`. -/
def denominator (d : Decimal) : Nat := Nat.pow 10 (-d.exponent).toNat

/-- Whether the fraction `num / den`, in units of `2 ^ -1075`, rounds to rank `r` or to a lower one.
A midpoint rounds to the even one of its two neighbours. -/
def staysWithin (num den r : Nat) : Bool :=
  num < den * midpoint r || (num == den * midpoint r && r % 2 == 0)

/-- The least number from `low` on at which `p` holds, when `p` holds from some number on; at most
`low + width`, the answer when `p` fails below it. -/
def leastFrom (p : Nat → Bool) (low : Nat) : Nat → Nat
  | 0 => low
  | width + 1 =>
    let middle := (width + 1) / 2
    if p (low + middle) then leastFrom p low middle
    else leastFrom p (low + middle + 1) (width - middle)
termination_by width => width
decreasing_by all_goals omega

/-- The rank to which a decimal rounds: to nearest, ties to even, `infinity` beyond the range. -/
def nearestRank (d : Decimal) : Nat :=
  let num := d.numerator
  let den := d.denominator
  leastFrom (staysWithin num den) 0 infinity

/-- Whether a decimal rounds to rank `r`. -/
def roundsTo (d : Decimal) (r : Nat) : Bool :=
  let num := d.numerator
  let den := d.denominator
  staysWithin num den r && (r == 0 || !staysWithin num den (r - 1))

/-- The binary64 number nearest a decimal. -/
def toFloat (d : Decimal) : Float := ofRank d.nearestRank

end Decimal

end Reckon
