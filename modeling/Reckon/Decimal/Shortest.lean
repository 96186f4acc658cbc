import Reckon.Decimal.Rank

/-!
# The shortest decimal of a number

Of all decimals that round to a given magnitude, `shortest` takes one on the coarsest power of ten
grid, and there the one nearest the magnitude; of two equally near ones the larger. The search ends
at the latest on the grid `10 ^ -1074`, which holds every magnitude exactly.
-/

namespace Reckon.Decimal

/-- The numerator of the magnitude of rank `r` as a fraction of `10 ^ e`. -/
def gridNumerator (r : Nat) (e : Int) : Nat := weight r * Nat.pow 10 (-e).toNat

/-- The denominator that goes with `gridNumerator`. -/
def gridDenominator (e : Int) : Nat := Nat.pow 2 1074 * Nat.pow 10 e.toNat

/-- The point of the grid of multiples of `10 ^ e` that is nearest the magnitude of rank `r` among
those that round to it. Only the two grid points around the magnitude come into question. -/
def onGrid? (r : Nat) (e : Int) : Option Decimal :=
  let num := gridNumerator r e
  let den := gridDenominator e
  let below : Decimal := ⟨num / den, e⟩
  let above : Decimal := ⟨num / den + 1, e⟩
  if below.roundsTo r then
    if above.roundsTo r && den ≤ 2 * (num % den) then some above else some below
  else if above.roundsTo r then some above
  else none

/-- The magnitude of rank `r` on the finest grid, where it is a point: to halve is to take five
tenths. -/
def onFinestGrid (r : Nat) : Decimal := ⟨weight r * Nat.pow 5 1074, -1074⟩

/-- Searches the grids from `10 ^ (n - 1074)` down. -/
def searchFrom (r : Nat) : Nat → Decimal
  | 0 => onFinestGrid r
  | n + 1 => (onGrid? r ((n + 1 : Nat) - 1074)).getD (searchFrom r n)

/-- The shortest decimal that rounds to rank `r`. No grid coarser than the first power of ten above
the magnitude has a point that rounds to it, so the search starts there. -/
def shortest (r : Nat) : Decimal :=
  let wholePart := weight r / Nat.pow 2 1074
  if r = 0 then ⟨0, 0⟩ else searchFrom r ((Nat.toDigits 10 wholePart).length + 1074)

end Reckon.Decimal
