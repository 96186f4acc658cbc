import Mathlib
import Reckon.Token.Basic

/-!
# Numbers and their bit patterns

The rank of a number is the pattern of its absolute value (`ofRank_rank`), and all finite magnitudes
rank below infinity (`rank_lt_infinity`). A number is what its pattern unpacks to, packed again
(`packed_unpacked`), so it is determined by its magnitude and its sign (`apply_abs`). The numbers of
the ranks up to infinity have no sign (`isNaN_ofRank`, `signBit_ofRank`).
-/

namespace Reckon.Decimal

open Float.Model (UnpackedFloat Format)
open Float.Model.UnpackedFloat

/-! ## The fields of a pattern -/

theorem leadingBit_pos {w : Nat} (mantissa : BitVec w) : 0 < (1#1 ++ mantissa).toNat := by
  simp

theorem toNat_leadingBit (mantissa : BitVec 52) :
    (1#1 ++ mantissa).toNat = binade + mantissa.toNat := by
  rw [BitVec.toNat_append, binade]
  have := Nat.shiftLeft_add_eq_or_of_lt mantissa.isLt 1
  simp at this ⊢
  omega

section Fields

variable (b : BitVec 64)

/-- The sign, the exponent and the mantissa of a pattern. -/
abbrev signField : BitVec 1 := @unpackSign Format.binary64 b

@[inherit_doc signField]
abbrev exponentField : BitVec 11 := @unpackExponent Format.binary64 b

@[inherit_doc signField]
abbrev mantissaField : BitVec 52 := @unpackMantissa Format.binary64 b

theorem toNat_mantissaField : (mantissaField b).toNat = b.toNat % binade := by
  simp [mantissaField, unpackMantissa, binade]

theorem toNat_exponentField : (exponentField b).toNat = b.toNat / binade % 2048 := by
  simp [exponentField, unpackExponent, binade, Nat.shiftRight_eq_div_pow]

theorem toNat_signField : (signField b).toNat = b.toNat / signPlace := by
  have := b.isLt
  simp [signField, unpackSign, signPlace, Nat.shiftRight_eq_div_pow]
  omega

/-- The number with a given sign, exponent and mantissa. -/
def ofFields (sign : BitVec 1) (exponent : BitVec 11) (mantissa : BitVec 52) : UnpackedFloat :=
  let place : Int := exponent.toNat - 1075
  if exponent = -1#11 then
    if mantissa = 0#52 then .infinity (.ofBitVec sign) else .notANumber
  else if exponent = 0#11 then
    if h : mantissa = 0#52 then .zero (.ofBitVec sign)
    else .finite (.ofBitVec sign) mantissa.toNat (place + 1)
      (Nat.pos_of_ne_zero fun h' => h (BitVec.eq_of_toNat_eq h'))
  else .finite (.ofBitVec sign) (1#1 ++ mantissa).toNat place (leadingBit_pos mantissa)

theorem unpack_eq_ofFields :
    unpack Format.binary64 b = ofFields (signField b) (exponentField b) (mantissaField b) := rfl

end Fields

theorem abs_ofFields (sign : BitVec 1) (exponent : BitVec 11) (mantissa : BitVec 52) :
    (ofFields sign exponent mantissa).abs = ofFields 0#1 exponent mantissa := by
  unfold ofFields
  dsimp only
  split
  · split <;> rfl
  · split
    · split <;> rfl
    · rfl

/-! ## Patterns without the sign bit -/

/-- Without its sign bit, a pattern unpacks to the absolute value. -/
theorem unpack_ofNat_mod (b : BitVec 64) :
    unpack Format.binary64 (BitVec.ofNat 64 (b.toNat % signPlace)) =
      (unpack Format.binary64 b).abs := by
  have hlt : b.toNat % signPlace < 2 ^ 64 := by
    rw [signPlace]
    omega
  have hcleared : (BitVec.ofNat 64 (b.toNat % signPlace)).toNat = b.toNat % signPlace :=
    BitVec.toNat_ofNat .. ▸ Nat.mod_eq_of_lt hlt
  generalize BitVec.ofNat 64 (b.toNat % signPlace) = c at hcleared
  have hmantissa : mantissaField c = mantissaField b := by
    apply BitVec.eq_of_toNat_eq
    rw [toNat_mantissaField, toNat_mantissaField, hcleared, signPlace, binade]
    omega
  have hexponent : exponentField c = exponentField b := by
    apply BitVec.eq_of_toNat_eq
    rw [toNat_exponentField, toNat_exponentField, hcleared, signPlace, binade]
    omega
  have hsign : signField c = 0#1 := by
    apply BitVec.eq_of_toNat_eq
    rw [toNat_signField, hcleared, signPlace]
    simp only [BitVec.toNat_ofNat]
    omega
  rw [unpack_eq_ofFields, unpack_eq_ofFields, abs_ofFields, hmantissa, hexponent, hsign]

/-- The number of a rank is the absolute value. -/
theorem ofRank_rank (x : Float) : ofRank (rank x) = x.abs := by
  change Float.ofModel (.pack (unpack Format.binary64 (BitVec.ofNat 64 _))) = _
  rw [rank, ← UInt64.toNat_toBitVec, unpack_ofNat_mod]
  rfl

theorem exponentField_ne_of_isNaN {x : Float} (hnan : x.isNaN = false) (hinf : x.isInf = false) :
    exponentField x.toBits.toBitVec ≠ -1#11 := by
  intro h
  change (unpack Format.binary64 x.toBits.toBitVec).isNaN = false at hnan
  change (unpack Format.binary64 x.toBits.toBitVec).isInf = false at hinf
  rw [unpack_eq_ofFields, ofFields, if_pos h] at hnan hinf
  split at hnan
  · rename_i hmantissa
    rw [if_pos hmantissa] at hinf
    contradiction
  · contradiction

/-- All finite magnitudes rank below infinity. -/
theorem rank_lt_infinity {x : Float} (hnan : x.isNaN = false) (hinf : x.isInf = false) :
    rank x < infinity := by
  have hfield := exponentField_ne_of_isNaN hnan hinf
  rw [ne_eq, ← BitVec.toNat_inj, toNat_exponentField] at hfield
  have hall : (-1#11 : BitVec 11).toNat = 2047 := by decide
  rw [hall] at hfield
  rw [rank, infinity, ← UInt64.toNat_toBitVec, signPlace, binade]
  rw [binade] at hfield
  omega

/-! ## Packing again -/

theorem pack_finite (s : UnpackedFloat.Sign) (m : Nat) (e : Int) (h : 0 < m) :
    pack Format.binary64 (.finite s m e h) =
      if 2048 ≤ (e + 1075).toNat + 1 then packedInfinity Format.binary64 s
      else if m.log2 = 52 then
        packComponents Format.binary64 s (BitVec.ofNat 11 (e + 1075).toNat) (BitVec.ofNat 52 m)
      else packComponents Format.binary64 s 0#11 (BitVec.ofNat 52 m) := by
  have hbias : e + (Format.binary64.exponentBias : Nat) + (52 : Nat) = e + 1075 := by
    rw [show Format.binary64.exponentBias = 1023 from rfl]
    omega
  have hlog : m.log2 + 1 = Format.binary64.mantissaBits ↔ m.log2 = 52 := by
    rw [show Format.binary64.mantissaBits = 53 from rfl]
    omega
  rw [pack]
  simp only [hbias, hlog]

/-- What the pattern of a number unpacks to. -/
def unpacked (x : Float) : UnpackedFloat := x.toModel.unpack

/-- The number with the pattern that something packs to. -/
def packed (u : UnpackedFloat) : Float := .ofModel (.pack u)

theorem unpacked_eq_ofFields (x : Float) :
    unpacked x = ofFields (signField x.toBits.toBitVec) (exponentField x.toBits.toBitVec)
      (mantissaField x.toBits.toBitVec) := rfl

theorem packed_unpacked (x : Float) : packed (unpacked x) = x := x.ofBits_toBits

/-- What a pattern unpacks to is left as it is by packing and unpacking. -/
theorem unpack_pack_unpack (b : BitVec 64) :
    unpack Format.binary64 (pack Format.binary64 (unpack Format.binary64 b)) =
      unpack Format.binary64 b := by
  rw [pack_unpack]
  split
  · rename_i hnan
    obtain ⟨hexponent, hmantissa⟩ := of_decide_eq_true hnan
    rw [unpack_packedNaN, unpack_eq_ofFields, ofFields, if_pos hexponent, if_neg hmantissa]
  · rfl

theorem neg_ofFields (e : BitVec 11) (m : BitVec 52) :
    (ofFields 0#1 e m).neg = ofFields 1#1 e m := by
  unfold ofFields
  dsimp only
  split
  · split <;> rfl
  · split
    · split <;> rfl
    · rfl

theorem unpacked_abs (x : Float) : unpacked x.abs = (unpacked x).abs := by
  change unpack Format.binary64 (pack Format.binary64 (unpack Format.binary64 _).abs) = _
  rw [← unpack_ofNat_mod, unpack_pack_unpack, unpack_ofNat_mod]
  rfl

theorem signField_eq (x : Float) : signField x.toBits.toBitVec = BitVec.ofBool (signBit x) := by
  have hfield := toNat_signField x.toBits.toBitVec
  have hlt := (signField x.toBits.toBitVec).isLt
  rw [UInt64.toNat_toBitVec] at hfield
  apply BitVec.eq_of_toNat_eq
  rw [hfield, signPlace] at hlt ⊢
  rw [BitVec.toNat_ofBool, signBit, signPlace]
  by_cases hsign : 9223372036854775808 ≤ x.toBits.toNat
  · rw [decide_eq_true hsign, Bool.toNat_true]
    omega
  · rw [decide_eq_false hsign, Bool.toNat_false]
    omega

/-- A number is its absolute value with its sign. -/
theorem apply_abs (x : Float) :
    (if signBit x then Sign.negative else .positive).apply x.abs = x := by
  have habs : unpacked x.abs = ofFields 0#1 _ _ := (unpacked_abs x).trans (abs_ofFields _ _ _)
  have hx := unpacked_eq_ofFields x
  rw [signField_eq] at hx
  cases hsign : signBit x with
  | false =>
    rw [hsign] at hx
    change x.abs = x
    rw [← packed_unpacked x.abs, habs]
    exact (congrArg packed hx).symm.trans (packed_unpacked x)
  | true =>
    rw [hsign] at hx
    change packed (unpacked x.abs).neg = x
    rw [habs, neg_ofFields]
    exact (congrArg packed hx).symm.trans (packed_unpacked x)

/-! ## The numbers of ranks -/

/-- Up to infinity, ranks are patterns of numbers. -/
theorem isNaNBits_eq_false {b : BitVec 64} (h : b.toNat ≤ infinity) :
    @isNaNBits Format.binary64 b = false := by
  rw [Bool.eq_false_iff]
  intro hnan
  obtain ⟨hexponent, hmantissa⟩ := of_decide_eq_true hnan
  apply hmantissa
  apply BitVec.eq_of_toNat_eq
  have hfield := (toNat_exponentField b).symm.trans (congrArg BitVec.toNat hexponent)
  have hall : (-1#11 : BitVec 11).toNat = 2047 := by decide
  rw [hall, binade] at hfield
  refine (toNat_mantissaField b).trans ?_
  rw [infinity, binade] at h
  rw [binade]
  simp only [BitVec.toNat_ofNat]
  omega

theorem toBits_ofRank {r : Nat} (h : r ≤ infinity) :
    (ofRank r).toBits.toBitVec = BitVec.ofNat 64 r := by
  have hr : (BitVec.ofNat 64 r).toNat = r := by
    rw [infinity, binade] at h
    rw [BitVec.toNat_ofNat]
    omega
  change pack Format.binary64 (unpack Format.binary64 (BitVec.ofNat 64 r)) = _
  rw [pack_unpack, if_neg]
  rw [isNaNBits_eq_false (by rwa [hr])]
  exact Bool.false_ne_true

theorem signBit_ofRank {r : Nat} (h : r ≤ infinity) : signBit (ofRank r) = false := by
  rw [signBit, ← UInt64.toNat_toBitVec, toBits_ofRank h, BitVec.toNat_ofNat]
  rw [infinity, binade] at h
  rw [signPlace, decide_eq_false_iff_not]
  omega

theorem isNaN_ofRank {r : Nat} (h : r ≤ infinity) : (ofRank r).isNaN = false := by
  have hr : (BitVec.ofNat 64 r).toNat ≤ infinity := by
    rw [BitVec.toNat_ofNat]
    exact Nat.le_trans (Nat.mod_le _ _) h
  have hnan := isNaNBits_eq_false hr
  change (unpack Format.binary64 (ofRank r).toBits.toBitVec).isNaN = false
  rw [toBits_ofRank h, unpack_eq_ofFields, ofFields]
  generalize BitVec.ofNat 64 r = b at hnan
  split
  · rename_i hexponent
    split
    · rfl
    · rename_i hmantissa
      have : @isNaNBits Format.binary64 b = true := decide_eq_true ⟨hexponent, hmantissa⟩
      rw [hnan] at this
      contradiction
  · split
    · split <;> rfl
    · rfl

end Reckon.Decimal
