import DonationLedger.Number.Rounding

namespace DonationLedger.Number

theorem toDigits_head_ne_zero {n : Nat} (h : 0 < n) : ∃ d ds, Nat.toDigits 10 n = d :: ds ∧ d ≠ '0' := by
  induction n using Nat.strongRecOn with
  | ind n ih =>
      by_cases hn : n < 10
      · refine ⟨n.digitChar, [], Nat.toDigits_of_lt_base hn, ?_⟩
        have hall : ∀ d, d < 10 → 0 < d → d.digitChar ≠ '0' := by decide
        exact hall n hn h
      · obtain ⟨d, ds, hd, hne⟩ := ih (n / 10) (by omega) (by omega)
        refine ⟨d, ds ++ [(n % 10).digitChar], ?_, hne⟩
        rw [Nat.toDigits_of_base_le (by decide) (by omega), hd, List.cons_append]

theorem toDigits_ne_zero_cons (n : Nat) {c : Char} {cs : List Char} :
    Nat.toDigits 10 n ≠ '0' :: c :: cs := by
  intro h
  by_cases hn : n = 0
  · rw [hn, Nat.toDigits_zero] at h
    cases h
  · obtain ⟨d, ds, hd, hne⟩ := toDigits_head_ne_zero (Nat.pos_of_ne_zero hn)
    rw [hd] at h
    exact hne (List.cons.inj h).1

end DonationLedger.Number
