import Reckon.Decimal.Shortest

/-!
# Rounding decimals

The magnitudes of the ranks grow strictly (`weight_lt_weight`), so every decimal rounds to one rank:
`nearestRank_eq` says that the search finds the rank that a decimal rounds to, and
`roundsTo_shortest` that the shortest decimal of a rank rounds to it.
-/

namespace Reckon.Decimal

/-! ## Magnitudes grow with the rank -/

theorem weight_lt_weight_succ (r : Nat) : weight r < weight (r + 1) := by
  have hbinade : binade = 4503599627370496 := rfl
  by_cases hsmall : r + 1 < binade
  · rw [weight, weight, if_pos (by omega), if_pos hsmall]
    omega
  by_cases hfirst : r < binade
  · have h1 : (r + 1) % binade = 0 := by rw [hbinade] at *; omega
    have h2 : (r + 1) / binade = 1 := by rw [hbinade] at *; omega
    rw [weight, weight, if_pos hfirst, if_neg hsmall, h1, h2]
    change r < (binade + 0) * 1
    omega
  have hq : r / binade = r / binade - 1 + 1 := by rw [hbinade] at *; omega
  have hpos : 0 < Nat.pow 2 (r / binade - 1) := Nat.pow_pos (by decide)
  rw [weight, weight, if_neg hfirst, if_neg hsmall]
  by_cases hlast : r % binade + 1 = binade
  · -- the last magnitude of its binade is followed by the next power of two
    have h1 : (r + 1) % binade = 0 := by rw [hbinade] at *; omega
    have h2 : (r + 1) / binade - 1 = r / binade := by rw [hbinade] at *; omega
    have h3 : Nat.pow 2 (r / binade) = Nat.pow 2 (r / binade - 1) * 2 := by
      rw [hq]
      rfl
    rw [h1, h2, h3]
    generalize Nat.pow 2 (r / binade - 1) = p at *
    calc (binade + r % binade) * p
        < (binade * 2) * p := Nat.mul_lt_mul_of_pos_right (by omega) hpos
      _ = (binade + 0) * (p * 2) := by rw [Nat.add_zero, Nat.mul_assoc, Nat.mul_comm 2 p]
  · have h1 : (r + 1) % binade = r % binade + 1 := by rw [hbinade] at *; omega
    have h2 : (r + 1) / binade = r / binade := by rw [hbinade] at *; omega
    rw [h1, h2]
    exact Nat.mul_lt_mul_of_pos_right (by omega) hpos

theorem weight_lt_weight {r s : Nat} (h : r < s) : weight r < weight s := by
  induction h with
  | refl => exact weight_lt_weight_succ r
  | step _ ih => exact Nat.lt_trans ih (weight_lt_weight_succ _)

theorem midpoint_lt_midpoint {r s : Nat} (h : r < s) : midpoint r < midpoint s := by
  have h1 := weight_lt_weight h
  have h2 : weight (r + 1) < weight (s + 1) := weight_lt_weight (Nat.succ_lt_succ h)
  simp only [midpoint]
  omega

/-! ## Every decimal rounds to one rank -/

theorem staysWithin_of_lt {num den r s : Nat} (hden : 0 < den) (h : r < s)
    (hr : staysWithin num den r = true) : staysWithin num den s = true := by
  have hmid := Nat.mul_lt_mul_of_pos_left (midpoint_lt_midpoint h) hden
  simp only [staysWithin, Bool.or_eq_true, decide_eq_true_eq, Bool.and_eq_true, beq_iff_eq] at hr ⊢
  omega

theorem denominator_pos (d : Decimal) : 0 < d.denominator := Nat.pow_pos (by decide)

/-- The search finds the least number at which the predicate holds. -/
theorem leastFrom_eq {p : Nat → Bool} {low width r : Nat} (hlow : low ≤ r) (hr : r ≤ low + width)
    (hbelow : ∀ s, s < r → p s = false) (habove : ∀ s, r ≤ s → p s = true) :
    leastFrom p low width = r := by
  fun_induction leastFrom p low width with
  | case1 low => omega
  | case2 low width middle hp ih =>
    have : r ≤ low + middle := by
      by_cases h : low + middle < r
      · rw [hbelow _ h] at hp
        contradiction
      · omega
    exact ih hlow this
  | case3 low width middle hp ih =>
    have : ¬ r ≤ low + middle := fun h => hp (habove _ h)
    exact ih (by omega) (by omega)

theorem leastFrom_le (p : Nat → Bool) (low width : Nat) : leastFrom p low width ≤ low + width := by
  fun_induction leastFrom p low width with
  | case1 low => omega
  | case2 low width middle hp ih => omega
  | case3 low width middle hp ih => omega

/-- No decimal is sent beyond infinity. -/
theorem nearestRank_le_infinity (d : Decimal) : d.nearestRank ≤ infinity := by
  have := leastFrom_le (staysWithin d.numerator d.denominator) 0 infinity
  rwa [Nat.zero_add] at this

/-- A decimal that rounds to a rank in range is sent to it. -/
theorem nearestRank_eq {d : Decimal} {r : Nat} (hrange : r ≤ infinity) (h : d.roundsTo r = true) :
    d.nearestRank = r := by
  have hden := d.denominator_pos
  simp only [roundsTo, Bool.and_eq_true, Bool.or_eq_true, beq_iff_eq, Bool.not_eq_true'] at h
  refine leastFrom_eq (Nat.zero_le r) (by omega) (fun s hs => ?_) (fun s hs => ?_)
  · rcases h.2 with rfl | hr
    · omega
    · by_cases hlast : s = r - 1
      · rw [hlast, hr]
      · cases hstays : staysWithin d.numerator d.denominator s with
        | false => rfl
        | true =>
          rw [staysWithin_of_lt hden (by omega : s < r - 1) hstays] at hr
          contradiction
  · rcases Nat.eq_or_lt_of_le hs with rfl | hs
    · exact h.1
    · exact staysWithin_of_lt hden hs h.1

/-- Only the value of a decimal counts. -/
theorem roundsTo_congr {d d' : Decimal} (r : Nat)
    (h : d.numerator * d'.denominator = d'.numerator * d.denominator) :
    d.roundsTo r = d'.roundsTo r := by
  have hstays : ∀ s, staysWithin d.numerator d.denominator s =
      staysWithin d'.numerator d'.denominator s := by
    intro s
    have hden := d.denominator_pos
    have hden' := d'.denominator_pos
    have hlt : d.numerator < d.denominator * midpoint s ↔
        d'.numerator < d'.denominator * midpoint s := by
      rw [← Nat.mul_lt_mul_right hden', h, ← Nat.mul_lt_mul_right hden (b := d'.numerator)]
      rw [Nat.mul_right_comm, Nat.mul_comm (d.denominator * d'.denominator),
        Nat.mul_comm d.denominator, ← Nat.mul_assoc, Nat.mul_comm (midpoint s)]
    have heq : d.numerator = d.denominator * midpoint s ↔
        d'.numerator = d'.denominator * midpoint s := by
      rw [← Nat.mul_left_inj (Nat.ne_of_gt hden'), h,
        ← Nat.mul_left_inj (Nat.ne_of_gt hden) (b := d'.numerator)]
      rw [Nat.mul_right_comm, Nat.mul_comm (d.denominator * d'.denominator),
        Nat.mul_comm d.denominator, ← Nat.mul_assoc, Nat.mul_comm (midpoint s)]
    rw [Bool.eq_iff_iff]
    simp only [staysWithin, Bool.or_eq_true, decide_eq_true_eq, Bool.and_eq_true, beq_iff_eq,
      hlt, heq]
  simp only [roundsTo, hstays]

/-! ## The shortest decimal rounds back -/

theorem roundsTo_onGrid {r : Nat} {e : Int} {d : Decimal} (h : onGrid? r e = some d) :
    d.roundsTo r = true := by
  simp only [onGrid?] at h
  split at h
  · split at h
    all_goals
      obtain rfl := Option.some.inj h
      simp_all
  · split at h
    · obtain rfl := Option.some.inj h
      assumption
    · contradiction

/-- A decimal that has exactly the magnitude of a rank rounds to it. -/
theorem roundsTo_of_eq {d : Decimal} {r : Nat}
    (h : d.numerator = d.denominator * (2 * weight r)) : d.roundsTo r = true := by
  have hden := d.denominator_pos
  have habove : d.numerator < d.denominator * midpoint r := by
    rw [h]
    refine Nat.mul_lt_mul_of_pos_left ?_ hden
    have := weight_lt_weight_succ r
    simp only [midpoint]
    omega
  simp only [roundsTo, Bool.and_eq_true, Bool.or_eq_true, beq_iff_eq, Bool.not_eq_true']
  refine ⟨by simp [staysWithin, habove], ?_⟩
  by_cases hr : r = 0
  · exact .inl hr
  · right
    have hbelow : d.denominator * midpoint (r - 1) < d.numerator := by
      rw [h]
      refine Nat.mul_lt_mul_of_pos_left ?_ hden
      have := weight_lt_weight (show r - 1 < r by omega)
      simp only [midpoint, Nat.sub_add_cancel (Nat.pos_of_ne_zero hr)]
      omega
    simp only [staysWithin, Bool.or_eq_false_iff, decide_eq_false_iff_not, Bool.and_eq_false_iff,
      beq_eq_false_iff_ne]
    omega

theorem pow_ten (n : Nat) : Nat.pow 10 n = Nat.pow 5 n * Nat.pow 2 n := Nat.mul_pow 5 2 n

theorem two_pow_succ (n : Nat) : Nat.pow 2 (n + 1) = Nat.pow 2 n * 2 := rfl

theorem roundsTo_onFinestGrid (r : Nat) : (onFinestGrid r).roundsTo r = true := by
  refine roundsTo_of_eq ?_
  have hnum : (onFinestGrid r).numerator =
      weight r * Nat.pow 5 1074 * Nat.pow 10 0 * Nat.pow 2 (1074 + 1) := rfl
  have hden : (onFinestGrid r).denominator = Nat.pow 10 1074 := rfl
  rw [hnum, hden, two_pow_succ, pow_ten 1074]
  generalize Nat.pow 5 1074 = p
  generalize Nat.pow 2 1074 = q
  calc weight r * p * 1 * (q * 2)
      = weight r * (p * q * 2) := by rw [Nat.mul_one, Nat.mul_assoc, ← Nat.mul_assoc p]
    _ = p * q * (2 * weight r) := by rw [Nat.mul_comm (weight r), Nat.mul_assoc]

theorem roundsTo_searchFrom (r n : Nat) : (searchFrom r n).roundsTo r = true := by
  induction n with
  | zero => exact roundsTo_onFinestGrid r
  | succ n ih =>
    rw [searchFrom]
    cases h : onGrid? r ((n + 1 : Nat) - 1074) with
    | none => exact ih
    | some d => exact roundsTo_onGrid h

/-- The shortest decimal of a rank rounds to that rank. -/
theorem roundsTo_shortest (r : Nat) : (shortest r).roundsTo r = true := by
  simp only [shortest]
  split
  · rename_i hzero
    rw [hzero]
    refine roundsTo_of_eq ?_
    rw [numerator, Nat.zero_mul, Nat.zero_mul]
    rfl
  · exact roundsTo_searchFrom _ _

end Reckon.Decimal
