import DonationLedger.Proofs.Coin.Merge
import DonationLedger.Proofs.Number.Value

namespace DonationLedger

namespace Number.Decimal

theorem mul_value {part : Decimal} {k : Nat} (hn : part.negative = false)
    (hk : part.exponent = -k) (amount : Nat) :
    (amount : ℚ) * part.value = ((amount * part.coefficient : Nat) : ℚ) / ((10 ^ k : Nat) : ℚ) := by
  rw [value, hn, if_neg Bool.false_ne_true, size, hk, zpow_neg, zpow_natCast]
  push_cast
  ring

theorem floor_mul_value {part : Decimal} {k : Nat} (hn : part.negative = false)
    (hk : part.exponent = -k) (amount : Nat) :
    ⌊(amount : ℚ) * part.value⌋ = (amount * part.coefficient / 10 ^ k : Nat) := by
  rw [mul_value hn hk]
  exact Rat.floor_natCast_div_natCast _ _

end Number.Decimal

namespace Coin

open Number

theorem div_roundDiv {n k surplus : Nat} (h : surplus ≤ k) :
    n / 10 ^ k ≤ roundDiv n (10 ^ surplus) / 10 ^ (k - surplus)
      ∧ roundDiv n (10 ^ surplus) / 10 ^ (k - surplus) ≤ n / 10 ^ k + 1 := by
  have hpos : 0 < 10 ^ (k - surplus) := Nat.pow_pos (by decide)
  have hcut : n / 10 ^ k = n / 10 ^ surplus / 10 ^ (k - surplus) := by
    rw [Nat.div_div_eq_div_mul, ← Nat.pow_add, Nat.add_sub_cancel' h]
  rw [hcut]
  refine ⟨Nat.div_le_div_right (div_le_roundDiv _ _), ?_⟩
  calc roundDiv n (10 ^ surplus) / 10 ^ (k - surplus)
      ≤ (n / 10 ^ surplus + 1) / 10 ^ (k - surplus) := Nat.div_le_div_right (roundDiv_le _ _)
    _ ≤ (n / 10 ^ surplus + 10 ^ (k - surplus)) / 10 ^ (k - surplus) :=
      Nat.div_le_div_right (Nat.add_le_add_left hpos _)
    _ = n / 10 ^ surplus / 10 ^ (k - surplus) + 1 := Nat.add_div_right _ hpos

theorem shareOf_bounds {amount share : Int} {part : Decimal} (h0 : 0 ≤ amount)
    (hg : amount ≤ greatest) (hu : part.inUnit = true) (h : shareOf amount part = .ok share) :
    ⌊(amount : ℚ) * part.value⌋ ≤ share
      ∧ share ≤ min amount (⌊(amount : ℚ) * part.value⌋ + 1) := by
  obtain ⟨share', hshare', hamount⟩ := shareOf_inUnit h0 hg hu
  obtain rfl := Except.ok.inj (h.symm.trans hshare')
  obtain ⟨a, rfl⟩ := Int.eq_ofNat_of_zero_le h0
  by_cases hc : part.coefficient = 0
  · rw [shareOf_zero _ hc] at h
    obtain rfl := Except.ok.inj h
    simp [Decimal.value_eq_zero hc]
  obtain ⟨hn, k, hk, hle⟩ := Decimal.coefficient_le_of_inUnit hu hc
  obtain ⟨surplus, hless, -, hshare⟩ := shareOf_eq hg hn hk hle
  obtain rfl := Except.ok.inj (h.symm.trans hshare)
  have hfloor := Decimal.floor_mul_value hn hk a
  obtain ⟨hlow, hhigh⟩ := div_roundDiv (n := a * part.coefficient) hless
  rw [Int.cast_natCast, hfloor]
  exact ⟨Int.ofNat_le.2 hlow, le_min hamount (by exact_mod_cast hhigh)⟩

/-- Funds with one coin per denomination at most, each of the part of a balance: the exact product
without its fraction or one coin more, and never more than there is. -/
structure Portion (part : Decimal) (balance funds : List Coin) : Prop where
  distinct : (denoms funds).Nodup
  least : ∀ denom, ⌊(total denom balance : ℚ) * part.value⌋ ≤ total denom funds
  most : ∀ denom, total denom funds
    ≤ min (total denom balance) (⌊(total denom balance : ℚ) * part.value⌋ + 1)

theorem split_cons_ok {part : Numeral} {c : Coin} {balance funds : List Coin}
    (h : split part (c :: balance) = .ok funds) :
    ∃ share rest, numeralShare c.amount part = .ok share ∧ split part balance = .ok rest
      ∧ funds = if share ≤ 0 then rest else ⟨c.denom, share⟩ :: rest := by
  simp only [split] at h
  split at h
  · cases h
  · next share hshare =>
      refine ⟨share, ?_⟩
      split at h
      · next hzero => exact ⟨funds, hshare, h, (if_pos hzero).symm⟩
      · next hpos =>
          split at h
          · cases h
          · cases hrest : split part balance with
            | error f =>
                rw [hrest] at h
                cases h
            | ok rest =>
                rw [hrest] at h
                obtain rfl := Except.ok.inj h
                exact ⟨rest, hshare, rfl, (if_neg hpos).symm⟩

theorem split_denoms {part : Numeral} {balance funds : List Coin}
    (h : split part balance = .ok funds) : (denoms funds).Sublist (denoms balance) := by
  induction balance generalizing funds with
  | nil =>
      obtain rfl := Except.ok.inj h
      exact .slnil
  | cons c balance ih =>
      obtain ⟨share, rest, -, hrest, rfl⟩ := split_cons_ok h
      split
      · exact (ih hrest).cons _
      · exact (ih hrest).cons_cons _

theorem split_total {part : Decimal} (hu : part.inUnit = true) {balance funds : List Coin}
    (hd : (denoms balance).Nodup) (hv : ∀ c ∈ balance, c.Valid)
    (h : split (.finite part) balance = .ok funds) (denom : String) :
    ⌊(total denom balance : ℚ) * part.value⌋ ≤ total denom funds
      ∧ total denom funds
        ≤ min (total denom balance) (⌊(total denom balance : ℚ) * part.value⌋ + 1) := by
  induction balance generalizing funds with
  | nil =>
      obtain rfl := Except.ok.inj h
      simp [total_nil]
  | cons c balance ih =>
      obtain ⟨share, rest, hshare, hrest, rfl⟩ := split_cons_ok h
      obtain ⟨hhead, htail⟩ := List.nodup_cons.1 hd
      obtain ⟨⟨h0, hg⟩, hv'⟩ := List.forall_mem_cons.1 hv
      have hbounds := ih htail hv' hrest
      by_cases hc : c.denom = denom
      · -- the denomination is that of the first coin and of no other
        subst hc
        have hnone : total c.denom rest = 0 :=
          total_of_not_mem (fun hm => hhead ((split_denoms hrest).subset hm))
        have hshares := shareOf_bounds h0 hg hu hshare
        have hnonneg : 0 ≤ ⌊(c.amount : ℚ) * part.value⌋ :=
          Int.floor_nonneg.2 (mul_nonneg (by exact_mod_cast h0) (part.inUnit_iff.1 hu).1)
        rw [total_cons, if_pos rfl, total_of_not_mem hhead, add_zero]
        split
        · have hzero : share = 0 := by omega
          rwa [hnone, ← hzero]
        · rwa [total_cons, if_pos rfl, hnone, add_zero]
      · rw [total_cons, if_neg hc, zero_add]
        split
        · exact hbounds
        · rwa [total_cons, if_neg hc, zero_add]

theorem split_portion {part : Decimal} (hu : part.inUnit = true) {balance funds : List Coin}
    (hd : (denoms balance).Nodup) (hv : ∀ c ∈ balance, c.Valid)
    (h : split (.finite part) balance = .ok funds) : Portion part balance funds where
  distinct := hd.sublist (split_denoms h)
  least denom := (split_total hu hd hv h denom).1
  most denom := (split_total hu hd hv h denom).2

end Coin

end DonationLedger
