import Reckon.Proofs.Number.Bits

/-!
# Zeros in sums and products

What the sign of a zero does to a sum and to a product, and what adding to zero and multiplying with
one do to a number: a sum is negative zero only if both numbers are (`add_ne_neg_zero`), and the
sign of a zero factor is lost together with the sign of a zero product (`unsignedZero_mul`).
-/

namespace Reckon.Decimal

open Float.Model (UnpackedFloat Format)
open Float.Model.UnpackedFloat

/-! ## Rounding -/

section Rounding

open Float.Model (totalExponent)

/-- Whether a mantissa and an exponent are those of a pattern. -/
structure Canonical (m : Nat) (e : Int) : Prop where
  lt : m < 2 * binade
  least : -1074 ≤ e
  subnormal : m < binade → e = -1074

theorem canonical_of_unpacked {x : Float} {s : UnpackedFloat.Sign} {m : Nat} {e : Int} {h : 0 < m}
    (hx : unpacked x = .finite s m e h) : Canonical m e := by
  rw [unpacked_eq_ofFields] at hx
  generalize mantissaField x.toBits.toBitVec = field at hx
  have hfield := field.isLt
  unfold ofFields at hx
  dsimp only at hx
  split at hx
  · split at hx <;> contradiction
  · split at hx
    · rename_i hzero
      rw [hzero] at hx
      split at hx
      · contradiction
      · obtain ⟨-, rfl, rfl⟩ := UnpackedFloat.finite.inj hx
        exact ⟨by rw [binade]; omega, by decide, fun _ => rfl⟩
    · rename_i hzero
      obtain ⟨-, rfl, rfl⟩ := UnpackedFloat.finite.inj hx
      rw [toNat_leadingBit]
      have hpos : exponentField x.toBits.toBitVec ≠ 0#11 := hzero
      rw [ne_eq, ← BitVec.toNat_inj] at hpos
      refine ⟨by rw [binade]; omega, ?_, fun h => ?_⟩
      · change ¬_ = 0 at hpos
        omega
      · rw [binade] at h
        omega

theorem targetExponent_binary64 (t : Int) :
    Format.binary64.targetExponent t = max (t - 53) (-1074) := by
  rw [Format.targetExponent, show Format.binary64.minExponent = -1074 by decide]
  rfl

/-- Above the least exponent, rounding shifts a mantissa so far that it has 53 bits. -/
theorem shift_eq {m : Nat} {e : Int} (he : -1074 ≤ e) :
    (Format.binary64.targetExponent (totalExponent m e) - e).toNat = m.log2 - 52 := by
  rw [targetExponent_binary64, totalExponent]
  omega

theorem mantissa_shiftRight (em : ExtendedMantissa) (k : Nat) :
    (em >>> k).mantissa = em.mantissa / 2 ^ k := by
  induction k with
  | zero => exact (Nat.div_one _).symm
  | succ k ih =>
    change (em >>> k).mantissa / 2 = _
    rw [ih, Nat.div_div_eq_div_mul, Nat.pow_succ]

/-- Shifting out zeros leaves an exact mantissa. -/
theorem exact_shiftRight (m k : Nat) :
    (⟨2 ^ k * m, false, false⟩ : ExtendedMantissa) >>> k = ⟨m, false, false⟩ := by
  induction k generalizing m with
  | zero =>
    rw [Nat.pow_zero, Nat.one_mul]
    rfl
  | succ k ih =>
    change ((⟨2 ^ (k + 1) * m, false, false⟩ : ExtendedMantissa) >>> k).shiftRightOne = _
    rw [Nat.pow_succ, Nat.mul_assoc, ih, ExtendedMantissa.shiftRightOne]
    simp

theorem shifted_pos {m : Nat} (hm : 0 < m) :
    0 < m / 2 ^ (m.log2 - 52) ∧ m / 2 ^ (m.log2 - 52) < 2 * binade := by
  have hle := Nat.log2_self_le (Nat.ne_of_gt hm)
  have hlt := @Nat.lt_log2_self m
  refine ⟨Nat.div_pos ?_ (Nat.two_pow_pos _), Nat.div_lt_of_lt_mul ?_⟩
  · exact Nat.le_trans (Nat.pow_le_pow_right (by decide) (Nat.sub_le _ _)) hle
  · refine Nat.lt_of_lt_of_le hlt ?_
    have hbinade : 2 * binade = 2 ^ 53 := by decide
    rw [hbinade, ← Nat.pow_add]
    exact Nat.pow_le_pow_right (by decide) (by omega)

theorem le_roundToNearestEven (m : Nat) (a : Accuracy) : m ≤ a.roundToNearestEven m := by
  match a with
  | .exact => exact Nat.le_refl m
  | .inexact .lt => exact Nat.le_refl m
  | .inexact .eq => exact Nat.le_add_right m _
  | .inexact .gt => exact Nat.le_add_right m 1

theorem shiftToTargetExponent_eq {m k : Nat} {e : Int}
    (h : (Format.binary64.targetExponent (totalExponent m e) - e).toNat = k) :
    shiftToTargetExponent Format.binary64 m e .exact =
      ((⟨m, false, false⟩ : ExtendedMantissa) >>> k, e + k) := by
  subst h
  rfl

/-- A positive mantissa above the least exponent does not round to zero. -/
theorem exists_roundWithAccuracy (s : UnpackedFloat.Sign) {m : Nat} {e : Int} (hm : 0 < m)
    (he : -1074 ≤ e) :
    ∃ m' e' h, roundWithAccuracy Format.binary64 s m e .exact = .finite s m' e' h ∧
      m' < 2 * binade ∧ -1074 ≤ e' := by
  rw [roundWithAccuracy, shiftToTargetExponent_eq (shift_eq he)]
  dsimp only
  have hpos : 0 < ((⟨m, false, false⟩ : ExtendedMantissa) >>> (m.log2 - 52)).roundedMantissa := by
    rw [ExtendedMantissa.roundedMantissa, mantissa_shiftRight]
    exact Nat.lt_of_lt_of_le (shifted_pos hm).1 (le_roundToNearestEven _ _)
  generalize ExtendedMantissa.roundedMantissa _ = rounded at hpos
  have he' : -1074 ≤ e + (m.log2 - 52 : Nat) := by omega
  have hfinal := shifted_pos hpos
  rw [shiftToTargetExponent_eq (shift_eq he')]
  dsimp only
  split
  · rename_i hzero
    rw [mantissa_shiftRight] at hzero
    exact absurd hzero (Nat.ne_of_gt hfinal.1)
  · rename_i hnonzero
    refine ⟨_, _, Nat.pos_of_ne_zero hnonzero, rfl, ?_, by omega⟩
    rw [mantissa_shiftRight]
    exact hfinal.2

/-- Rounding takes off zeros behind a mantissa. -/
theorem roundWithAccuracy_shifted (s : UnpackedFloat.Sign) {m k : Nat} {e : Int} (hm : 0 < m)
    (hfirst : (Format.binary64.targetExponent (totalExponent (2 ^ k * m) (e - k)) -
      (e - k)).toNat = k)
    (hsecond : (Format.binary64.targetExponent (totalExponent m e) - e).toNat = 0) :
    roundWithAccuracy Format.binary64 s (2 ^ k * m) (e - k) .exact = .finite s m e hm := by
  have hrounded : ExtendedMantissa.roundedMantissa ⟨m, false, false⟩ = m := rfl
  rw [roundWithAccuracy, shiftToTargetExponent_eq hfirst]
  dsimp only
  rw [exact_shiftRight, hrounded, Int.sub_add_cancel, shiftToTargetExponent_eq hsecond]
  have hkept : (⟨m, false, false⟩ : ExtendedMantissa) >>> 0 = ⟨m, false, false⟩ := rfl
  simp only [hkept]
  rw [dif_neg (Nat.ne_of_gt hm)]
  congr 1
  exact Int.add_zero e

/-- The mantissa and the exponent of a pattern are what they round to. -/
theorem targetExponent_of_canonical {m : Nat} {e : Int} (hm : 0 < m) (h : Canonical m e) :
    Format.binary64.targetExponent (totalExponent m e) = e := by
  have hleast := h.least
  rw [targetExponent_binary64, totalExponent]
  by_cases hnormal : binade ≤ m
  · have : m.log2 = 52 := (Nat.log2_eq_iff (Nat.ne_of_gt hm)).mpr ⟨hnormal, h.lt⟩
    omega
  · have hsubnormal := h.subnormal (by omega)
    have : m.log2 < 52 := (Nat.log2_lt (Nat.ne_of_gt hm)).mpr (by rw [binade] at hnormal; omega)
    omega

theorem log2_two_pow_mul {m : Nat} (k : Nat) (hm : 0 < m) : (2 ^ k * m).log2 = k + m.log2 := by
  rw [Nat.log2_eq_iff (Nat.ne_of_gt (Nat.mul_pos (Nat.two_pow_pos k) hm)), Nat.add_assoc,
    Nat.pow_add, Nat.pow_add]
  exact ⟨Nat.mul_le_mul_left _ (Nat.log2_self_le (Nat.ne_of_gt hm)),
    Nat.mul_lt_mul_of_pos_left Nat.lt_log2_self (Nat.two_pow_pos k)⟩

/-- Multiplying the mantissa of a pattern with a power of two and lowering its exponent by as much
changes nothing. -/
theorem roundWithAccuracy_two_pow (s : UnpackedFloat.Sign) {m : Nat} {e : Int} (k : Nat)
    (hm : 0 < m) (h : Canonical m e) :
    roundWithAccuracy Format.binary64 s (2 ^ k * m) (e - k) .exact = .finite s m e hm := by
  have htarget := targetExponent_of_canonical hm h
  have htotal : totalExponent (2 ^ k * m) (e - k) = totalExponent m e := by
    rw [totalExponent, totalExponent, log2_two_pow_mul k hm]
    omega
  refine roundWithAccuracy_shifted s hm ?_ ?_
  · rw [htotal, htarget]
    omega
  · rw [htarget]
    omega

theorem exists_round (s : UnpackedFloat.Sign) {m : Nat} {e : Int} (hm : 0 < m) (he : -1074 ≤ e) :
    ∃ m' e' h, UnpackedFloat.round Format.binary64 s m e = .finite s m' e' h ∧
      m' < 2 * binade ∧ -1074 ≤ e' := by
  rw [UnpackedFloat.round, decreaseExponent]
  refine exists_roundWithAccuracy s ?_ ?_
  · rw [Nat.shiftLeft_eq]
    exact Nat.mul_pos hm (Nat.two_pow_pos _)
  · rw [targetExponent_binary64]
    omega

end Rounding

/-! ## Zeros -/

theorem unpacked_zero : unpacked 0 = .zero .positive := rfl

theorem unpacked_neg_zero : unpacked (-0) = .zero .negative := rfl

theorem eq_zero_of_unpacked {x : Float} (h : unpacked x = .zero .positive) : x = 0 := by
  rw [← packed_unpacked x, h, ← unpacked_zero, packed_unpacked]

theorem eq_neg_zero_of_unpacked {x : Float} (h : unpacked x = .zero .negative) : x = -0 := by
  rw [← packed_unpacked x, h, ← unpacked_neg_zero, packed_unpacked]

/-- A number, without the sign of a negative zero. -/
def unsignedZero (x : Float) : Float := if x = -0 then 0 else x

theorem unsignedZero_of_ne {x : Float} (h : x ≠ -0) : unsignedZero x = x := if_neg h

theorem zero_ne_neg_zero : (0 : Float) ≠ -0 := by decide

theorem unsignedZero_ne (x : Float) : unsignedZero x ≠ -0 := by
  unfold unsignedZero
  split
  · exact zero_ne_neg_zero
  · assumption

/-- Two finite magnitudes do not pack to the pattern of negative zero. -/
theorem packed_finite_ne {s : UnpackedFloat.Sign} {m : Nat} {e : Int} (hm : 0 < m)
    (hlt : m < 2 * binade) (he : -1074 ≤ e) : packed (.finite s m e hm) ≠ -0 := by
  intro heq
  have hbits : pack Format.binary64 (.finite s m e hm) = packedZero Format.binary64 .negative :=
    congrArg (fun x : Float => x.toBits.toBitVec) heq
  rw [pack_finite] at hbits
  split at hbits
  · have hfield := congrArg exponentField hbits
    revert hfield
    cases s <;> decide
  · split at hbits
    · have hfield := congrArg exponentField hbits
      simp only [packedZero, exponentField, unpackExponent_packComponents] at hfield
      have hnat := congrArg BitVec.toNat hfield
      rw [BitVec.toNat_ofNat] at hnat
      change _ = 0 at hnat
      omega
    · rename_i hlog
      have hfield := congrArg mantissaField hbits
      simp only [packedZero, mantissaField, unpackMantissa_packComponents] at hfield
      have hnat := congrArg BitVec.toNat hfield
      rw [BitVec.toNat_ofNat] at hnat
      change _ = 0 at hnat
      have hsmall : m < binade := by
        refine Nat.lt_of_not_le fun hle => hlog ?_
        exact (Nat.log2_eq_iff (Nat.ne_of_gt hm)).mpr ⟨hle, hlt⟩
      rw [binade] at hsmall
      omega

theorem packed_round_ne (s : UnpackedFloat.Sign) {m : Nat} {e : Int} (hm : 0 < m)
    (he : -1074 ≤ e) : packed (UnpackedFloat.round Format.binary64 s m e) ≠ -0 := by
  obtain ⟨m', e', hm', heq, hlt, he'⟩ := exists_round s hm he
  rw [heq]
  exact packed_finite_ne hm' hlt he'

theorem packed_normalize_ne {m e : Int} (he : -1074 ≤ e) :
    packed (UnpackedFloat.normalize Format.binary64 m e .positive) ≠ -0 := by
  rw [UnpackedFloat.normalize]
  split
  · rename_i hlt
    have hneg := Int.compare_eq_lt.mp hlt
    exact packed_round_ne .negative (by omega) he
  · decide
  · rename_i hgt
    have hpos := Int.compare_eq_gt.mp hgt
    exact packed_round_ne .positive (by omega) he

theorem packed_infinity_ne (s : UnpackedFloat.Sign) : packed (.infinity s) ≠ -0 := by
  cases s <;> decide

theorem packed_notANumber_ne : packed .notANumber ≠ -0 := by decide

/-- A sum is negative zero only if both numbers are. -/
theorem add_ne_neg_zero {x : Float} (h : x ≠ -0) (y : Float) : x + y ≠ -0 := by
  change packed (UnpackedFloat.add Format.binary64 (unpacked x) (unpacked y)) ≠ -0
  cases hx : unpacked x with
  | notANumber => exact packed_notANumber_ne
  | infinity s =>
    cases unpacked y with
    | notANumber => exact packed_notANumber_ne
    | infinity s' =>
      rw [UnpackedFloat.add]
      split
      · exact packed_infinity_ne s
      · exact packed_notANumber_ne
    | zero s' => exact packed_infinity_ne s
    | finite s' m e hm => exact packed_infinity_ne s
  | zero s =>
    cases s with
    | negative => exact absurd (eq_neg_zero_of_unpacked hx) h
    | positive =>
      cases hy : unpacked y with
      | notANumber => exact packed_notANumber_ne
      | infinity s' => exact packed_infinity_ne s'
      | zero s' => cases s' <;> decide
      | finite s' m e hm =>
        have hcanonical := canonical_of_unpacked hy
        exact packed_finite_ne hm hcanonical.lt hcanonical.least
  | finite s m e hm =>
    have hcanonical := canonical_of_unpacked hx
    cases hy : unpacked y with
    | notANumber => exact packed_notANumber_ne
    | infinity s' => exact packed_infinity_ne s'
    | zero s' => exact packed_finite_ne hm hcanonical.lt hcanonical.least
    | finite s' m' e' hm' =>
      have hcanonical' := canonical_of_unpacked hy
      refine packed_normalize_ne ?_
      have := hcanonical.least
      have := hcanonical'.least
      omega

/-- Adding to zero takes away the sign of a negative zero and nothing else. -/
theorem zero_add (x : Float) : 0 + x = unsignedZero x := by
  change packed (UnpackedFloat.add Format.binary64 (.zero .positive) (unpacked x)) = _
  by_cases h : x = -0
  · subst h
    rfl
  · have hx := packed_unpacked x
    rw [unsignedZero_of_ne h]
    cases hu : unpacked x with
    | zero s =>
      cases s with
      | negative => exact absurd (eq_neg_zero_of_unpacked hu) h
      | positive => exact (eq_zero_of_unpacked hu).symm
    | notANumber | infinity s | finite s m e hm =>
      rw [hu] at hx
      exact hx

/-- To any other number than negative zero, both zeros add the same. -/
theorem add_unsignedZero {x : Float} (h : x ≠ -0) (y : Float) : x + unsignedZero y = x + y := by
  by_cases hy : y = -0
  · subst hy
    change packed (UnpackedFloat.add Format.binary64 (unpacked x) (.zero .positive)) =
      packed (UnpackedFloat.add Format.binary64 (unpacked x) (.zero .negative))
    cases hx : unpacked x with
    | zero s =>
      cases s with
      | negative => exact absurd (eq_neg_zero_of_unpacked hx) h
      | positive => rfl
    | notANumber | infinity s | finite s m e hm => rfl
  · rw [unsignedZero_of_ne hy]

theorem one_mul (x : Float) : 1 * x = x := by
  have hx := packed_unpacked x
  change packed (UnpackedFloat.mul Format.binary64 (.finite .positive binade (-52) (by decide))
    (unpacked x)) = x
  cases hu : unpacked x with
  | notANumber =>
    rw [hu] at hx
    exact hx
  | infinity s | zero s =>
    rw [hu] at hx
    cases s <;> exact hx
  | finite s m e hm =>
    rw [hu] at hx
    have hsign : UnpackedFloat.Sign.positive * s = s := by cases s <;> rfl
    have hround := roundWithAccuracy_two_pow s 52 hm (canonical_of_unpacked hu)
    rw [UnpackedFloat.mul, hsign, Int.add_comm]
    exact (congrArg packed hround).trans hx

theorem unsignedZero_mul_left (x y : Float) :
    unsignedZero (unsignedZero x * y) = unsignedZero (x * y) := by
  by_cases hx : x = -0
  · subst hx
    change
      unsignedZero (packed (UnpackedFloat.mul Format.binary64 (.zero .positive) (unpacked y))) =
      unsignedZero (packed (UnpackedFloat.mul Format.binary64 (.zero .negative) (unpacked y)))
    cases unpacked y with
    | notANumber | infinity s => rfl
    | zero s | finite s m e hm => cases s <;> rfl
  · rw [unsignedZero_of_ne hx]

theorem unsignedZero_mul_right (x y : Float) :
    unsignedZero (x * unsignedZero y) = unsignedZero (x * y) := by
  by_cases hy : y = -0
  · subst hy
    change
      unsignedZero (packed (UnpackedFloat.mul Format.binary64 (unpacked x) (.zero .positive))) =
      unsignedZero (packed (UnpackedFloat.mul Format.binary64 (unpacked x) (.zero .negative)))
    cases unpacked x with
    | notANumber | infinity s => rfl
    | zero s | finite s m e hm => cases s <;> rfl
  · rw [unsignedZero_of_ne hy]

/-- The sign of a zero factor is lost together with the sign of a zero product. -/
theorem unsignedZero_mul {x x' y y' : Float} (hx : unsignedZero x = unsignedZero x')
    (hy : unsignedZero y = unsignedZero y') : unsignedZero (x * y) = unsignedZero (x' * y') := by
  rw [← unsignedZero_mul_left, ← unsignedZero_mul_right, hx, hy, unsignedZero_mul_right,
    unsignedZero_mul_left]

end Reckon.Decimal
