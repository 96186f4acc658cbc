import Mathlib.Data.List.TakeWhile
import Reckon.Decimal.Notation
import Reckon.Proofs.Decimal.Rounding

/-!
# Written decimals read back

A decimal in positional notation consists of digits and at most one point, and it is read as a
decimal of the same value. So the shortest decimal of a rank, as it is written, is read back as the
number of that rank (`readNumeral?_shortest`).
-/

namespace Reckon.Decimal

theorem isDigit_of_mem_toDigits {n : Nat} {c : Char} (h : c ∈ Nat.toDigits 10 n) :
    c.isDigit = true :=
  Nat.isDigit_of_mem_toDigits (by decide) (by decide) h

theorem isDigit_of_mem_zeros {n : Nat} {c : Char} (h : c ∈ List.replicate n '0') :
    c.isDigit = true := by
  rw [List.eq_of_mem_replicate h]
  rfl

/-- Digits on both sides of a point. -/
structure Digits (parts : List Char × List Char) : Prop where
  whole_ne_nil : parts.1 ≠ []
  whole : ∀ c ∈ parts.1, c.isDigit = true
  fraction : ∀ c ∈ parts.2, c.isDigit = true

theorem digits_split (d : Decimal) : Digits d.split := by
  have hdigits : ∀ c ∈ Nat.toDigits 10 d.coefficient, c.isDigit = true :=
    fun c hc => isDigit_of_mem_toDigits hc
  unfold split
  dsimp only
  split
  · rename_i hshift
    refine ⟨?_, ?_, fun c hc => hdigits c (List.mem_of_mem_drop hc)⟩
    · intro h
      have := congrArg List.length (List.append_eq_nil_iff.mp h).1
      rw [List.length_take, List.length_nil] at this
      omega
    · intro c hc
      rcases List.mem_append.mp hc with hc | hc
      · exact hdigits c (List.mem_of_mem_take hc)
      · exact isDigit_of_mem_zeros hc
  · refine ⟨List.cons_ne_nil _ _, ?_, ?_⟩
    · intro c hc
      rw [List.mem_singleton.mp hc]
      rfl
    · intro c hc
      rcases List.mem_append.mp hc with hc | hc
      · exact isDigit_of_mem_zeros hc
      · exact hdigits c hc

theorem positionalChars_zero (d : Decimal) : d.positionalChars 0 = pointed d.split.1 d.split.2 := by
  rw [positionalChars, Nat.zero_sub, List.replicate_zero, List.append_nil]

theorem ne_point_of_isDigit {c : Char} (h : c.isDigit = true) : (c != '.') = true := by
  rw [bne_iff_ne]
  rintro rfl
  contradiction

/-- A whole part and a fraction that consist of digits are read back. -/
theorem ofNumeral?_pointed {whole fraction : List Char} (h : Digits (whole, fraction)) :
    ofNumeral? (pointed whole fraction) = some (ofDigits whole fraction) := by
  have hwhole : ∀ c ∈ whole, (c != '.') = true := fun c hc => ne_point_of_isDigit (h.whole c hc)
  have hne := h.whole_ne_nil
  unfold pointed
  split
  · rename_i hempty
    rw [List.isEmpty_iff] at hempty
    subst hempty
    have htake : whole.takeWhile (· != '.') = whole := List.takeWhile_eq_self_iff.mpr hwhole
    have hdrop : whole.dropWhile (· != '.') = [] := List.dropWhile_eq_nil_iff.mpr hwhole
    simp [ofNumeral?, htake, hdrop, hne]
  · have htake : (whole ++ '.' :: fraction).takeWhile (· != '.') = whole := by
      rw [List.takeWhile_append_of_pos hwhole]
      simp
    have hdrop : (whole ++ '.' :: fraction).dropWhile (· != '.') = '.' :: fraction := by
      rw [List.dropWhile_append_of_pos hwhole]
      simp
    have hpoint : '.' ∉ fraction := by
      intro hmem
      exact absurd (h.fraction '.' hmem) (by decide)
    simp [ofNumeral?, htake, hdrop, hne, hpoint]

theorem numerator_mk (n : Nat) (e : Int) :
    numerator ⟨n, e⟩ = n * Nat.pow 10 e.toNat * Nat.pow 2 1075 := rfl

theorem denominator_mk (n : Nat) (e : Int) : denominator ⟨n, e⟩ = Nat.pow 10 (-e).toNat := rfl

/-- Splitting a decimal keeps its value. -/
theorem value_split (d : Decimal) :
    (ofDigits d.split.1 d.split.2).numerator * d.denominator =
      d.numerator * (ofDigits d.split.1 d.split.2).denominator := by
  obtain ⟨n, e⟩ := d
  have hn : Nat.ofDigitChars 10 (Nat.toDigits 10 n) 0 = n := Nat.ofDigitChars_ten_toDigits
  unfold split ofDigits
  dsimp only
  split
  · rename_i hshift
    by_cases he : 0 ≤ e
    · -- no fraction, and zeros for the exponent
      have hzero : (-e).toNat = 0 := by omega
      have hvalue : Nat.ofDigitChars 10 (Nat.toDigits 10 n ++ List.replicate e.toNat '0') 0 =
          n * Nat.pow 10 e.toNat := by
        rw [Nat.ofDigitChars_append, hn, Nat.ofDigitChars_replicate_zero, Nat.mul_comm]
        rfl
      simp only [hzero, Nat.sub_zero, List.take_length, List.drop_length, List.append_nil, hvalue]
      rw [numerator_mk, denominator_mk, numerator_mk, denominator_mk, hzero]
      generalize Nat.pow 2 1075 = unit
      change n * Nat.pow 10 e.toNat * 1 * unit * 1 = n * Nat.pow 10 e.toNat * unit * 1
      rw [Nat.mul_one, Nat.mul_one, Nat.mul_one]
    · -- the digits, with as many places as the exponent asks for
      have hzero : e.toNat = 0 := by omega
      simp only [hzero, List.replicate_zero, List.append_nil, List.take_append_drop, hn,
        List.length_drop]
      have he' : (-(((Nat.toDigits 10 n).length -
          ((Nat.toDigits 10 n).length - (-e).toNat) : Nat) : Int)) = e := by omega
      rw [he']
  · rename_i hshift
    have hpos := Nat.length_toDigits_pos (b := 10) (n := n)
    have hvalue : Nat.ofDigitChars 10 (['0'] ++ (List.replicate
        ((-e).toNat - (Nat.toDigits 10 n).length) '0' ++ Nat.toDigits 10 n)) 0 = n := by
      rw [Nat.ofDigitChars_append, Nat.ofDigitChars_append, Nat.ofDigitChars_replicate_zero]
      exact hn
    rw [hvalue]
    have he' : (-((List.replicate ((-e).toNat - (Nat.toDigits 10 n).length) '0' ++
        Nat.toDigits 10 n).length : Int)) = e := by
      rw [List.length_append, List.length_replicate]
      omega
    rw [he']

/-- A decimal as it is written without an exponent reads back to a decimal of its value. -/
theorem exists_ofNumeral?_positionalChars (d : Decimal) :
    ∃ d', ofNumeral? (d.positionalChars 0) = some d' ∧
      d'.numerator * d.denominator = d.numerator * d'.denominator := by
  refine ⟨_, ?_, value_split d⟩
  rw [positionalChars_zero]
  exact ofNumeral?_pointed (digits_split d)

/-- The written form of a magnitude reads back as that magnitude. -/
theorem readNumeral?_shortest {r : Nat} (h : r ≤ infinity) :
    readNumeral? ((shortest r).positionalChars 0) = some (ofRank r) := by
  obtain ⟨d', hread, hvalue⟩ := exists_ofNumeral?_positionalChars (shortest r)
  have hrounds : d'.roundsTo r = true := by
    rw [roundsTo_congr r hvalue]
    exact roundsTo_shortest r
  rw [readNumeral?, hread, Option.map_some, toFloat, nearestRank_eq h hrounds]

/-- The written form of a magnitude starts with a digit and consists of digits and points. -/
theorem positionalChars_eq_cons (d : Decimal) :
    ∃ c rest, d.positionalChars 0 = c :: rest ∧ c.isDigit = true ∧
      ∀ x ∈ c :: rest, isNumeralChar x = true := by
  obtain ⟨hne, hwhole, hfraction⟩ := digits_split d
  have hchars : ∀ x ∈ d.positionalChars 0, isNumeralChar x = true := by
    intro x hx
    rw [positionalChars_zero, pointed] at hx
    split at hx
    · simp [isNumeralChar, hwhole x hx]
    · rcases List.mem_append.mp hx with hx | hx
      · simp [isNumeralChar, hwhole x hx]
      · rcases List.mem_cons.mp hx with rfl | hx
        · rfl
        · simp [isNumeralChar, hfraction x hx]
  obtain ⟨c, rest, hcons⟩ := List.exists_cons_of_ne_nil hne
  have hform : ∃ rest', d.positionalChars 0 = c :: rest' := by
    rw [positionalChars_zero, pointed, hcons]
    split
    · exact ⟨_, rfl⟩
    · exact ⟨_, rfl⟩
  obtain ⟨rest', hform⟩ := hform
  exact ⟨c, rest', hform, hwhole c (by rw [hcons]; exact List.mem_cons_self), hform ▸ hchars⟩

end Reckon.Decimal
