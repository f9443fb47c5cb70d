import Mathlib.Algebra.Order.BigOperators.Group.List
import Mathlib.Data.Int.Log
import Mathlib.Tactic.FieldSimp
import DonationLedger.Contract.Instantiate
import DonationLedger.Proofs.Coin.Portion

namespace DonationLedger

namespace Number

theorem roundDiv_div_even {n d m : Nat} (hd : 0 < d) (hm : Even m) :
    roundDiv n d / m = (2 * n + d) / (2 * d) / m := by
  have hrest := Nat.mod_lt n hd
  have hraised : (2 * n + d) / (2 * d) = n / d + (2 * (n % d) + d) / (2 * d) := by
    have hsum : 2 * n + d = 2 * d * (n / d) + (2 * (n % d) + d) := by
      have := congrArg (2 * ·) (Nat.div_add_mod n d)
      grind
    rw [hsum, Nat.mul_add_div (by omega)]
  rw [hraised]
  unfold roundDiv
  dsimp only
  generalize n / d = q
  generalize n % d = r at hrest ⊢
  rcases lt_trichotomy d (2 * r) with hmore | hhalf | hless
  · have hone : (2 * r + d) / (2 * d) = 1 := Nat.div_eq_of_lt_le (by omega) (by omega)
    simp [hone, hmore]
  · have hone : (2 * r + d) / (2 * d) = 1 := Nat.div_eq_of_lt_le (by omega) (by omega)
    rw [hone]
    rcases Nat.mod_two_eq_zero_or_one q with hq | hq
    · -- the neighbour above is odd, so it is no multiple of an even number
      have hndvd : ¬m ∣ q + 1 := fun h => by
        have := hm.two_dvd.trans h
        omega
      simp [hhalf, hq, Nat.succ_div_of_not_dvd hndvd]
    · simp [hhalf, hq]
  · have hzero : (2 * r + d) / (2 * d) = 0 := Nat.div_eq_of_lt (by omega)
    simp [hzero, hless.ne, hless.not_gt]

theorem digitCount_mul_le (a b : Nat) : digitCount (a * b) ≤ digitCount a + digitCount b :=
  digitCount_le_of_le_mul (Nat.mul_le_mul_left a (Nat.le_of_lt (lt_pow_digitCount b)))

theorem log_div_pow {n : Nat} (hn : n ≠ 0) (k : Nat) :
    Int.log 10 ((n : ℚ) / (10 ^ k : Nat)) + 1 = (digitCount n : Int) - k := by
  have hpos := digitCount_pos n
  have hpow : (0 : ℚ) < 10 ^ k := by positivity
  have hx : 0 < (n : ℚ) / (10 ^ k : Nat) :=
    div_pos (by exact_mod_cast Nat.pos_of_ne_zero hn) (by exact_mod_cast hpow)
  have hlow : (digitCount n : Int) - k - 1 ≤ Int.log 10 ((n : ℚ) / (10 ^ k : Nat)) := by
    refine (Int.zpow_le_iff_le_log (by decide) hx).1 ?_
    have hle : (10 : ℚ) ^ (digitCount n - 1) ≤ n := by
      exact_mod_cast Decimal.pow_le_coefficient hn
    rw [show (digitCount n : Int) - k - 1 = (digitCount n - 1 : Nat) - (k : Int) by omega]
    push_cast
    rw [zpow_sub₀ (by norm_num), zpow_natCast, zpow_natCast]
    exact div_le_div_of_nonneg_right hle hpow.le
  have hhigh : Int.log 10 ((n : ℚ) / (10 ^ k : Nat)) < (digitCount n : Int) - k := by
    refine (Int.lt_zpow_iff_log_lt (by decide) hx).1 ?_
    have hlt : (n : ℚ) < 10 ^ digitCount n := by exact_mod_cast lt_pow_digitCount n
    push_cast
    rw [zpow_sub₀ (by norm_num), zpow_natCast, zpow_natCast]
    exact div_lt_div_of_pos_right hlt hpow
  omega

end Number

namespace Coin

open Number

/-- Half a unit of the last digit that a product keeps. -/
def halfPlace (x : ℚ) : ℚ := (10 : ℚ) ^ (Int.log 10 x + 1 - shareDigits) / 2

def raised (x : ℚ) : ℚ := x + halfPlace x

theorem le_raised (x : ℚ) : x ≤ raised x := by
  unfold raised halfPlace
  exact le_add_of_nonneg_right (by positivity)

theorem halfPlace_div {n : Nat} (hn : n ≠ 0) (k : Nat) :
    halfPlace ((n : ℚ) / (10 ^ k : Nat))
      = (10 : ℚ) ^ ((digitCount n : Int) - shareDigits) / 10 ^ k / 2 := by
  rw [halfPlace, log_div_pow hn, ← zpow_natCast, ← zpow_sub₀ (by norm_num)]
  congr 2
  omega

theorem floor_raised_kept {n : Nat} (hn : n ≠ 0) (k : Nat)
    (h : digitCount n ≤ shareDigits) :
    ⌊raised ((n : ℚ) / (10 ^ k : Nat))⌋ = (n / 10 ^ k : Nat) := by
  have hunit : (10 : ℚ) ^ ((digitCount n : Int) - shareDigits) ≤ 1 :=
    zpow_le_one_of_nonpos₀ (by norm_num) (by omega)
  have hle : raised ((n : ℚ) / (10 ^ k : Nat))
      ≤ ((2 * n + 1 : Nat) : ℚ) / ((2 * 10 ^ k : Nat) : ℚ) := by
    rw [raised, halfPlace_div hn]
    push_cast
    calc (n : ℚ) / 10 ^ k + 10 ^ ((digitCount n : Int) - shareDigits) / 10 ^ k / 2
        ≤ (n : ℚ) / 10 ^ k + 1 / 10 ^ k / 2 := by gcongr
      _ = (2 * n + 1) / (2 * 10 ^ k) := by field_simp
  refine le_antisymm ?_ ?_
  · calc ⌊raised ((n : ℚ) / (10 ^ k : Nat))⌋
        ≤ ⌊((2 * n + 1 : Nat) : ℚ) / ((2 * 10 ^ k : Nat) : ℚ)⌋ := Int.floor_le_floor hle
      _ = ((2 * n + 1) / (2 * 10 ^ k) : Nat) := Rat.floor_natCast_div_natCast _ _
      _ = (n / 10 ^ k : Nat) := by
        rw [← Nat.div_div_eq_div_mul]
        congr 2
        omega
  · calc ((n / 10 ^ k : Nat) : Int) = ⌊(n : ℚ) / (10 ^ k : Nat)⌋ :=
        (Rat.floor_natCast_div_natCast _ _).symm
      _ ≤ _ := Int.floor_le_floor (le_raised _)

theorem floor_raised_rounded {n k surplus : Nat} (hn : n ≠ 0)
    (hs : digitCount n = shareDigits + surplus) (hk : surplus < k) :
    ⌊raised ((n : ℚ) / (10 ^ k : Nat))⌋
      = (roundDiv n (10 ^ surplus) / 10 ^ (k - surplus) : Nat) := by
  have heven : Even (10 ^ (k - surplus)) := (show Even 10 by decide).pow_of_ne_zero (by omega)
  have hsum : raised ((n : ℚ) / (10 ^ k : Nat))
      = ((2 * n + 10 ^ surplus : Nat) : ℚ) / ((2 * 10 ^ k : Nat) : ℚ) := by
    rw [raised, halfPlace_div hn, hs, Nat.cast_add, add_sub_cancel_left, zpow_natCast]
    push_cast
    field_simp
  rw [hsum, roundDiv_div_even (Nat.pow_pos (by decide)) heven, Nat.div_div_eq_div_mul,
    Nat.mul_assoc, ← Nat.pow_add, Nat.add_sub_cancel' hk.le]
  exact Rat.floor_natCast_div_natCast _ _

theorem floor_raised_zero : ⌊raised 0⌋ = 0 := by
  rw [raised, halfPlace, Int.log_zero_right]
  norm_num [shareDigits]

theorem floor_raised {n k surplus : Nat} (hs : surplus = digitCount n - shareDigits)
    (hk : surplus = 0 ∨ surplus < k) :
    ⌊raised ((n : ℚ) / (10 ^ k : Nat))⌋
      = (roundDiv n (10 ^ surplus) / 10 ^ (k - surplus) : Nat) := by
  by_cases hn : n = 0
  · obtain rfl : surplus = 0 := by rw [hs, hn]; rfl
    simp [hn, roundDiv_one, floor_raised_zero]
  rcases Nat.eq_zero_or_pos surplus with rfl | hpos
  · rw [floor_raised_kept hn k (by omega), pow_zero, roundDiv_one, Nat.sub_zero]
  · exact floor_raised_rounded hn (by omega) (by omega)

def exactShare (part : Decimal) (amount : Int) : Int := ⌊(amount : ℚ) * part.value⌋

def raisedShare (part : Decimal) (amount : Int) : Int := ⌊raised ((amount : ℚ) * part.value)⌋

theorem exactShare_le_raisedShare (part : Decimal) (amount : Int) :
    exactShare part amount ≤ raisedShare part amount :=
  Int.floor_le_floor (le_raised _)

theorem raisedShare_eq_exactShare_iff (part : Decimal) (amount : Int) :
    raisedShare part amount = exactShare part amount
      ↔ raised ((amount : ℚ) * part.value) < exactShare part amount + 1 := by
  have hle := exactShare_le_raisedShare part amount
  rw [← Int.cast_one, ← Int.cast_add, ← Int.floor_lt]
  change _ ↔ raisedShare part amount < _
  omega

theorem exactShare_nonneg {part : Decimal} {amount : Int} (h0 : 0 ≤ amount)
    (hp : 0 ≤ part.value) : 0 ≤ exactShare part amount :=
  Int.floor_nonneg.2 (mul_nonneg (by exact_mod_cast h0) hp)

theorem raisedShare_zero {part : Decimal} (hc : part.coefficient = 0) (amount : Int) :
    raisedShare part amount = 0 := by
  rw [raisedShare, Decimal.value_eq_zero hc, mul_zero, floor_raised_zero]

theorem raisedShare_eq {part : Decimal} {a k surplus : Nat} (hn : part.negative = false)
    (hk : part.exponent = -k) (hs : surplus = digitCount (a * part.coefficient) - shareDigits)
    (hroom : surplus = 0 ∨ surplus < k) :
    raisedShare part a
      = (roundDiv (a * part.coefficient) (10 ^ surplus) / 10 ^ (k - surplus) : Nat) := by
  rw [raisedShare, Int.cast_natCast, Decimal.mul_value hn hk, floor_raised hs hroom]

theorem shareOf_eq_raisedShare {part : Decimal} {amount : Int} (h0 : 0 ≤ amount)
    (hg : amount ≤ greatest) (hu : part.inUnit = true) :
    shareOf amount part = .ok (raisedShare part amount) := by
  obtain ⟨a, rfl⟩ := Int.eq_ofNat_of_zero_le h0
  by_cases hc : part.coefficient = 0
  · rw [shareOf_zero _ hc, raisedShare_zero hc]
  obtain ⟨hn, k, hk, hle⟩ := Decimal.coefficient_le_of_inUnit hu hc
  obtain ⟨surplus, hless, hsurplus, hshare⟩ := shareOf_eq hg hn hk hle
  -- the product has more decimal places than digits that are rounded away
  have hroom : surplus = 0 ∨ surplus < k := by
    have hcount := digitCount_le_of_le_mul (Nat.mul_le_mul_left a hle)
    have hdigits := digitCount_of_valid hg
    rw [Int.toNat_natCast] at hdigits
    unfold shareDigits at hsurplus
    omega
  rw [hshare, raisedShare_eq hn hk hsurplus hroom]

theorem raisedShare_of_digits {part : Decimal} {amount : Int} (h0 : 0 ≤ amount)
    (hg : amount ≤ greatest) (hu : part.inUnit = true) (hd : digitCount part.coefficient ≤ 57) :
    raisedShare part amount = exactShare part amount := by
  obtain ⟨a, rfl⟩ := Int.eq_ofNat_of_zero_le h0
  by_cases hc : part.coefficient = 0
  · rw [raisedShare_zero hc, exactShare, Decimal.value_eq_zero hc, mul_zero, Int.floor_zero]
  obtain ⟨hn, k, hk, hle⟩ := Decimal.coefficient_le_of_inUnit hu hc
  have hkept : digitCount (a * part.coefficient) ≤ shareDigits := by
    have hmul := digitCount_mul_le a part.coefficient
    have hdigits := digitCount_of_valid hg
    rw [Int.toNat_natCast] at hdigits
    unfold shareDigits
    omega
  rw [raisedShare_eq hn hk (Nat.sub_eq_zero_of_le hkept).symm (.inl rfl), exactShare,
    Int.cast_natCast, Decimal.floor_mul_value hn hk, pow_zero, roundDiv_one, Nat.sub_zero]

theorem raisedShare_le {part : Decimal} {c : Coin} (h : c.Valid) (hu : part.inUnit = true) :
    raisedShare part c.amount ≤ greatest := by
  obtain ⟨share, hshare, hle⟩ := shareOf_inUnit h.1 h.2 hu
  rw [shareOf_eq_raisedShare h.1 h.2 hu] at hshare
  obtain rfl := Except.ok.inj hshare
  exact hle.trans h.2

def shares (share : Int → Int) (balance : List Coin) : List Coin :=
  (balance.map (fun c => { c with amount := share c.amount })).filter (fun c => 0 < c.amount)

theorem shares_cons (share : Int → Int) (c : Coin) (balance : List Coin) :
    shares share (c :: balance)
      = if share c.amount ≤ 0 then shares share balance
        else ⟨c.denom, share c.amount⟩ :: shares share balance := by
  rw [shares, List.map_cons, List.filter_cons]
  by_cases h : share c.amount ≤ 0
  · rw [if_pos h, if_neg (by simpa using h)]
    rfl
  · rw [if_neg h, if_pos (by simpa using h)]
    rfl

theorem split_eq_shares {part : Decimal} {share : Int → Int} {balance : List Coin}
    (h : ∀ c ∈ balance, shareOf c.amount part = .ok (share c.amount) ∧ share c.amount ≤ greatest) :
    split (.finite part) balance = .ok (shares share balance) := by
  induction balance with
  | nil => rfl
  | cons c balance ih =>
      obtain ⟨⟨hshare, hle⟩, hrest⟩ := List.forall_mem_cons.1 h
      rw [split, shares_cons]
      simp only [numeralShare, hshare, ih hrest, if_neg (not_lt.2 hle), Except.map]
      split <;> rfl

theorem sum_shares {share : Int → Int} {balance : List Coin}
    (h : ∀ c ∈ balance, 0 ≤ share c.amount) :
    ((shares share balance).map (·.amount)).sum = (balance.map (fun c => share c.amount)).sum := by
  induction balance with
  | nil => rfl
  | cons c balance ih =>
      obtain ⟨h0, hrest⟩ := List.forall_mem_cons.1 h
      rw [shares_cons, List.map_cons, List.sum_cons, ← ih hrest]
      split
      · omega
      · simp

theorem shares_eq_iff {f g : Int → Int} {balance : List Coin}
    (h : ∀ c ∈ balance, 0 ≤ f c.amount ∧ f c.amount ≤ g c.amount) :
    shares g balance = shares f balance ↔ ∀ c ∈ balance, g c.amount = f c.amount := by
  constructor
  · intro heq c hc
    by_contra hne
    have hlt : (balance.map (fun c => f c.amount)).sum < (balance.map (fun c => g c.amount)).sum :=
      List.sum_lt_sum _ _ (fun d hd => (h d hd).2) ⟨c, hc, lt_of_le_of_ne (h c hc).2 (Ne.symm hne)⟩
    rw [← sum_shares (fun d hd => (h d hd).1),
      ← sum_shares (fun d hd => (h d hd).1.trans (h d hd).2), heq] at hlt
    exact lt_irrefl _ hlt
  · intro heq
    unfold shares
    rw [List.map_congr_left (fun c hc => by rw [heq c hc])]

theorem split_raised {part : Decimal} {balance : List Coin} (hp : 0 ≤ part.value ∧ part.value ≤ 1)
    (hv : ∀ c ∈ balance, c.Valid) :
    split (.finite part) balance = .ok (shares (raisedShare part) balance)
      ∧ (split (.finite part) balance = .ok (shares (exactShare part) balance)
        ↔ ∀ c ∈ balance, raised ((c.amount : ℚ) * part.value) < exactShare part c.amount + 1)
      ∧ (digitCount part.coefficient ≤ 57 →
        split (.finite part) balance = .ok (shares (exactShare part) balance)) := by
  have hu := part.inUnit_iff.2 hp
  have hraised : split (.finite part) balance = .ok (shares (raisedShare part) balance) :=
    split_eq_shares (fun c hc =>
      ⟨shareOf_eq_raisedShare (hv c hc).1 (hv c hc).2 hu, raisedShare_le (hv c hc) hu⟩)
  have hexact : split (.finite part) balance = .ok (shares (exactShare part) balance)
      ↔ ∀ c ∈ balance, raisedShare part c.amount = exactShare part c.amount := by
    rw [hraised, Except.ok.injEq]
    exact shares_eq_iff (fun c hc =>
      ⟨exactShare_nonneg (hv c hc).1 hp.1, exactShare_le_raisedShare part c.amount⟩)
  refine ⟨hraised, ?_, fun hd => ?_⟩
  · simp only [hexact, raisedShare_eq_exactShare_iff]
  · exact hexact.2 (fun c hc => raisedShare_of_digits (hv c hc).1 (hv c hc).2 hu hd)

def tenth : Decimal := { negative := false, coefficient := 1, exponent := -1 }

theorem split_raised_tenth :
    (0 ≤ tenth.value ∧ tenth.value ≤ 1) ∧ (∀ c ∈ [Coin.mk "atom" greatest, ⟨"btc", 9⟩], c.Valid)
      ∧ digitCount tenth.coefficient ≤ 57
      ∧ split (.finite tenth) [⟨"atom", greatest⟩, ⟨"btc", 9⟩]
        = .ok (shares (exactShare tenth) [⟨"atom", greatest⟩, ⟨"btc", 9⟩]) := by
  have hp : 0 ≤ tenth.value ∧ tenth.value ≤ 1 := tenth.inUnit_iff.1 (by decide)
  have hv : ∀ c ∈ [Coin.mk "atom" greatest, ⟨"btc", 9⟩], c.Valid := by decide
  have hd : digitCount tenth.coefficient ≤ 57 := by decide
  exact ⟨hp, hv, hd, (split_raised hp hv).2.2 hd⟩

def nearlyOne : Decimal := { negative := false, coefficient := 10 ^ 97 - 1, exponent := -97 }

theorem split_nearlyOne_above :
    (Parent.mk "parent1" 1 nearlyOne).forwarding = .ok ⟨"parent1", 1, nearlyOne⟩
      ∧ split (.finite nearlyOne) [⟨"atom", 10⟩] = .ok [⟨"atom", 10⟩]
      ∧ shares (exactShare nearlyOne) [⟨"atom", 10⟩] = [⟨"atom", 9⟩] := by
  have hfloor : exactShare nearlyOne 10 = 9 := by
    have hplaces : nearlyOne.exponent = -(97 : Nat) := rfl
    exact (Decimal.floor_mul_value rfl hplaces 10).trans (by decide +kernel)
  refine ⟨rfl, rfl, ?_⟩
  simp [shares, hfloor]

end Coin

end DonationLedger
