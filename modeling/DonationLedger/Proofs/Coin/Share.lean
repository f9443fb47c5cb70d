import Mathlib.Algebra.Group.Int.Defs
import Mathlib.Algebra.Group.Nat.Defs
import DonationLedger.Coin.Share

namespace DonationLedger

namespace Number

theorem roundDiv_le_of_le_mul {n d m : Nat} (hd : 0 < d) (h : n ≤ m * d) : roundDiv n d ≤ m := by
  have hq : n / d ≤ m := Nat.div_le_of_le_mul (Nat.mul_comm m d ▸ h)
  rcases Nat.lt_or_eq_of_le hq with hlt | heq
  · exact Nat.le_trans (roundDiv_le n d) hlt
  · have hrest : n % d = 0 := by
      have hsum := Nat.div_add_mod n d
      rw [heq, Nat.mul_comm] at hsum
      omega
    unfold roundDiv
    rw [hrest, heq]
    simp [Nat.ne_of_lt hd]

theorem roundDiv_le_mul_pow {n a k surplus : Nat} (h : n ≤ a * 10 ^ k) (hle : surplus ≤ k) :
    roundDiv n (10 ^ surplus) ≤ a * 10 ^ (k - surplus) := by
  refine roundDiv_le_of_le_mul (Nat.pow_pos (by decide)) ?_
  rwa [Nat.mul_assoc, ← Nat.pow_add, Nat.sub_add_cancel hle]

theorem digitCount_le_iff {n k : Nat} (hk : 0 < k) : digitCount n ≤ k ↔ n < 10 ^ k :=
  Nat.length_toDigits_le_iff (by decide) hk

theorem lt_pow_digitCount (n : Nat) : n < 10 ^ digitCount n :=
  (digitCount_le_iff (digitCount_pos n)).1 (Nat.le_refl _)

theorem digitCount_le_of_le_mul {n a k : Nat} (h : n ≤ a * 10 ^ k) :
    digitCount n ≤ digitCount a + k := by
  have hpos := digitCount_pos a
  refine (digitCount_le_iff (by omega)).2 ?_
  calc n ≤ a * 10 ^ k := h
    _ < 10 ^ digitCount a * 10 ^ k :=
      Nat.mul_lt_mul_of_pos_right (lt_pow_digitCount a) (Nat.pow_pos (by decide))
    _ = 10 ^ (digitCount a + k) := (Nat.pow_add ..).symm

theorem Decimal.coefficient_le_of_inUnit {d : Decimal} (h : d.inUnit = true)
    (hc : d.coefficient ≠ 0) :
    d.negative = false ∧ ∃ k : Nat, d.exponent = -k ∧ d.coefficient ≤ 10 ^ k := by
  have hpos := digitCount_pos d.coefficient
  unfold inUnit at h
  simp only [Bool.or_eq_true, Bool.and_eq_true, Bool.not_eq_true', beq_iff_eq,
    decide_eq_true_eq, hc, false_or] at h
  obtain ⟨hn, hlow | ⟨hone, hle⟩⟩ := h
  · unfold adjusted at hlow
    refine ⟨hn, d.exponent.natAbs, by omega, ?_⟩
    calc d.coefficient ≤ 10 ^ digitCount d.coefficient := Nat.le_of_lt (lt_pow_digitCount _)
      _ ≤ 10 ^ d.exponent.natAbs := Nat.pow_le_pow_right (by decide) (by omega)
  · unfold adjusted at hone
    exact ⟨hn, digitCount d.coefficient - 1, by omega, hle⟩

end Number

namespace Coin

open Number

theorem wholePart_neg (digits k : Nat) : wholePart digits (-k) = digits / 10 ^ k := by
  unfold wholePart
  split
  · next hk =>
      obtain rfl : k = 0 := by omega
      simp
  · rw [Int.natAbs_neg, Int.natAbs_natCast]
    split
    · next hlt =>
        refine (Nat.div_eq_of_lt ?_).symm
        exact Nat.lt_of_lt_of_le (lt_pow_digitCount digits) (Nat.pow_le_pow_right (by decide) hlt)
    · rfl

theorem digitCount_of_valid {amount : Int} (h : amount ≤ greatest) :
    digitCount amount.toNat ≤ 39 := by
  refine (digitCount_le_iff (by decide)).2 ?_
  have hg : greatest < (10 : Int) ^ 39 := by decide
  omega

theorem shareOf_zero (amount : Int) {part : Decimal} (hc : part.coefficient = 0) :
    shareOf amount part = .ok 0 := by
  unfold shareOf
  rw [hc, Nat.mul_zero]
  rfl

theorem shareOf_eq {amount k : Nat} {part : Decimal} (hg : (amount : Int) ≤ greatest)
    (hn : part.negative = false) (hk : part.exponent = -k) (hle : part.coefficient ≤ 10 ^ k) :
    ∃ surplus ≤ k, surplus = digitCount (amount * part.coefficient) - shareDigits
      ∧ shareOf amount part
        = .ok (roundDiv (amount * part.coefficient) (10 ^ surplus) / 10 ^ (k - surplus) : Nat) := by
  have hdigits := digitCount_of_valid hg
  unfold shareOf roundDigits
  dsimp only
  rw [Int.toNat_natCast] at hdigits ⊢
  have hmul : amount * part.coefficient ≤ amount * 10 ^ k := Nat.mul_le_mul_left amount hle
  have hcount := digitCount_le_of_le_mul hmul
  generalize amount * part.coefficient = n at hmul hcount ⊢
  -- the digits that are rounded away lie behind the decimal point
  have hless : digitCount n - shareDigits ≤ k := by
    unfold shareDigits
    omega
  refine ⟨digitCount n - shareDigits, hless, rfl, ?_⟩
  generalize digitCount n - shareDigits = surplus at hless ⊢
  have hrounded := roundDiv_le_mul_pow hmul hless
  change (if roundDiv n (10 ^ surplus) == 0 then _ else _) = _
  generalize roundDiv n (10 ^ surplus) = digits at hrounded ⊢
  have hexponent : part.exponent + surplus = -((k - surplus : Nat) : Int) := by omega
  have hrange : ¬sharePower < -((k - surplus : Nat) : Int) + digitCount digits - 1 := by
    have := digitCount_le_of_le_mul hrounded
    unfold sharePower
    omega
  simp only [hexponent, if_neg hrange, hn, Bool.false_eq_true, if_false, wholePart_neg]
  split
  · next hzero =>
      rw [beq_iff_eq.1 hzero, Nat.zero_div]
      rfl
  · rfl

theorem shareOf_inUnit {amount : Int} {part : Decimal} (h0 : 0 ≤ amount) (hg : amount ≤ greatest)
    (hu : part.inUnit = true) :
    ∃ share, shareOf amount part = .ok share ∧ share ≤ amount := by
  obtain ⟨a, rfl⟩ := Int.eq_ofNat_of_zero_le h0
  by_cases hc : part.coefficient = 0
  · exact ⟨0, shareOf_zero a hc, h0⟩
  obtain ⟨hn, k, hk, hle⟩ := Decimal.coefficient_le_of_inUnit hu hc
  obtain ⟨surplus, hless, -, hshare⟩ := shareOf_eq hg hn hk hle
  refine ⟨_, hshare, ?_⟩
  have hrounded := roundDiv_le_mul_pow (Nat.mul_le_mul_left a hle) hless
  rw [Nat.mul_comm a (10 ^ (k - surplus))] at hrounded
  exact Int.ofNat_le.2 (Nat.div_le_of_le_mul hrounded)

theorem split_inUnit {part : Decimal} (hu : part.inUnit = true) {coins : List Coin}
    (hv : ∀ c ∈ coins, c.Valid) : ∃ funds, split (.finite part) coins = .ok funds := by
  induction coins with
  | nil => exact ⟨[], rfl⟩
  | cons c coins ih =>
      simp only [List.forall_mem_cons] at hv
      obtain ⟨⟨h0, hg⟩, hcoins⟩ := hv
      obtain ⟨funds, hfunds⟩ := ih hcoins
      obtain ⟨share, hshare, hle⟩ := shareOf_inUnit h0 hg hu
      simp only [split, numeralShare, hshare, hfunds, Except.map]
      split
      · exact ⟨funds, rfl⟩
      · rw [if_neg (by omega)]
        exact ⟨_, rfl⟩

end Coin

end DonationLedger
