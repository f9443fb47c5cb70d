import Mathlib.Algebra.Order.Field.Power
import Mathlib.Data.Rat.Floor
import Mathlib.Tactic.Linarith
import Mathlib.Tactic.Positivity
import DonationLedger.Proofs.Coin.Share

namespace DonationLedger.Number.Decimal

def size (d : Decimal) : ℚ := d.coefficient * (10 : ℚ) ^ d.exponent

def value (d : Decimal) : ℚ := if d.negative then -d.size else d.size

theorem size_nonneg (d : Decimal) : 0 ≤ d.size :=
  mul_nonneg (Nat.cast_nonneg _) (zpow_nonneg (by norm_num) _)

theorem size_eq_zero_iff (d : Decimal) : d.size = 0 ↔ d.coefficient = 0 := by
  have hpow : (10 : ℚ) ^ d.exponent ≠ 0 := zpow_ne_zero _ (by norm_num)
  simp [size, hpow]

theorem value_eq_zero {d : Decimal} (hc : d.coefficient = 0) : d.value = 0 := by
  simp [value, d.size_eq_zero_iff.2 hc]

theorem size_le_one_iff {d : Decimal} {k : Nat} (hk : d.exponent = -k) :
    d.size ≤ 1 ↔ d.coefficient ≤ 10 ^ k := by
  have hpow : (0 : ℚ) < 10 ^ k := by positivity
  rw [size, hk, zpow_neg, zpow_natCast, ← div_eq_mul_inv, div_le_one hpow]
  exact_mod_cast Iff.rfl

theorem one_lt_size {d : Decimal} (hc : d.coefficient ≠ 0) (he : 0 < d.exponent) :
    1 < d.size := by
  have hcoefficient : (1 : ℚ) ≤ d.coefficient := by exact_mod_cast Nat.pos_of_ne_zero hc
  have hpow : (1 : ℚ) < 10 ^ d.exponent := one_lt_zpow₀ (by norm_num) he
  calc (1 : ℚ) < 10 ^ d.exponent := hpow
    _ ≤ d.coefficient * 10 ^ d.exponent := le_mul_of_one_le_left (by positivity) hcoefficient

theorem pow_le_coefficient {n : Nat} (hn : n ≠ 0) : 10 ^ (digitCount n - 1) ≤ n := by
  have hpos := digitCount_pos n
  by_cases hone : digitCount n = 1
  · rw [hone]
    exact Nat.pos_of_ne_zero hn
  · refine Nat.le_of_not_lt fun hlt => ?_
    have := (digitCount_le_iff (n := n) (k := digitCount n - 1) (by omega)).2 hlt
    omega

theorem inUnit_iff_size {d : Decimal} (hc : d.coefficient ≠ 0) (hn : d.negative = false) :
    d.inUnit = true ↔ d.size ≤ 1 := by
  have hpos := digitCount_pos d.coefficient
  have hlow := pow_le_coefficient hc
  have hhigh := lt_pow_digitCount d.coefficient
  simp only [inUnit, hn, hc, beq_iff_eq, Bool.or_eq_true, Bool.and_eq_true, decide_eq_true_eq,
    Bool.not_false, false_or, true_and]
  unfold adjusted
  by_cases he : 0 < d.exponent
  · have hsize := one_lt_size hc he
    refine ⟨fun h => ?_, fun h => absurd h (not_le.2 hsize)⟩
    omega
  · obtain ⟨k, hk⟩ := Int.eq_ofNat_of_zero_le (show 0 ≤ -d.exponent by omega)
    rw [size_le_one_iff (k := k) (by omega)]
    constructor
    · rintro (h | ⟨h, hle⟩)
      · exact (hhigh.trans_le (Nat.pow_le_pow_right (by decide) (by omega))).le
      · have hcount : digitCount d.coefficient - 1 = k := by omega
        rw [← hcount]
        exact hle
    · intro h
      have hcount : digitCount d.coefficient - 1 ≤ k :=
        (Nat.pow_le_pow_iff_right (by decide)).1 (hlow.trans h)
      rcases Nat.lt_or_eq_of_le hcount with hlt | heq
      · exact .inl (by omega)
      · exact .inr ⟨by omega, heq ▸ h⟩

theorem inUnit_iff (d : Decimal) : d.inUnit = true ↔ 0 ≤ d.value ∧ d.value ≤ 1 := by
  have hnonneg := d.size_nonneg
  by_cases hc : d.coefficient = 0
  · simp [inUnit, hc, value_eq_zero hc]
  · have hsize : 0 < d.size := lt_of_le_of_ne hnonneg (Ne.symm (mt d.size_eq_zero_iff.1 hc))
    cases hn : d.negative with
    | false =>
        rw [inUnit_iff_size hc hn, value, hn]
        exact ⟨fun h => ⟨hnonneg, h⟩, fun h => h.2⟩
    | true =>
        have hvalue : d.value < 0 := by
          rw [value, hn]
          exact neg_neg_of_pos hsize
        have hunit : d.inUnit = false := by simp [inUnit, hn, hc]
        rw [hunit]
        exact ⟨nofun, fun h => absurd h.1 (not_le.2 hvalue)⟩

end DonationLedger.Number.Decimal
