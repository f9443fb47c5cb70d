import DonationLedger.Coin.Merge
import DonationLedger.Host.Bank

namespace DonationLedger

namespace Coin

def denoms (coins : List Coin) : List String := coins.map (·.denom)

structure Sound (coins : List Coin) : Prop where
  distinct : (denoms coins).Nodup
  amounts : ∀ c ∈ coins, 1 ≤ c.amount ∧ c.amount ≤ greatest

theorem sound_nil : Sound [] := ⟨List.nodup_nil, nofun⟩

theorem total_of_not_mem {denom : String} {coins : List Coin} (h : denom ∉ denoms coins) :
    total denom coins = 0 := by
  induction coins with
  | nil => rfl
  | cons c cs ih =>
      simp only [denoms, List.map_cons, List.mem_cons, not_or] at h
      rw [total_cons, if_neg (Ne.symm h.1), ih h.2, Int.zero_add]

theorem total_of_mem {coins : List Coin} (h : (denoms coins).Nodup) {c : Coin} (hc : c ∈ coins) :
    total c.denom coins = c.amount := by
  induction coins with
  | nil => cases hc
  | cons d ds ih =>
      obtain ⟨hd, hds⟩ := List.nodup_cons.1 h
      rw [total_cons]
      rcases List.mem_cons.1 hc with rfl | hc
      · rw [if_pos rfl, total_of_not_mem hd, Int.add_zero]
      · have hne : d.denom ≠ c.denom := fun heq => hd (List.mem_map.2 ⟨c, hc, heq.symm⟩)
        rw [if_neg hne, ih hds hc, Int.zero_add]

theorem total_nonneg (denom : String) {coins : List Coin} (h : ∀ c ∈ coins, 0 ≤ c.amount) :
    0 ≤ total denom coins := by
  induction coins with
  | nil => exact Int.le_refl 0
  | cons c cs ih =>
      have hc := h c (List.mem_cons_self ..)
      have hcs := ih (fun d hd => h d (List.mem_cons_of_mem c hd))
      rw [total_cons]
      split <;> omega

theorem Sound.nonneg {coins : List Coin} (h : Sound coins) : ∀ c ∈ coins, 0 ≤ c.amount := by
  intro c hc
  have := (h.amounts c hc).1
  omega

theorem Sound.valid {coins : List Coin} (h : Sound coins) : ∀ c ∈ coins, c.Valid :=
  fun c hc => ⟨h.nonneg c hc, (h.amounts c hc).2⟩

theorem Sound.eq_nil {coins : List Coin} (h : Sound coins) (ht : ∀ denom, total denom coins = 0) :
    coins = [] := by
  cases coins with
  | nil => rfl
  | cons c coins =>
      have htotal := total_of_mem h.distinct (List.mem_cons_self ..)
      have hamount := (h.amounts c (List.mem_cons_self ..)).1
      rw [ht] at htotal
      omega

theorem Sound.total_le {coins : List Coin} (h : Sound coins) (denom : String) :
    total denom coins ≤ greatest := by
  by_cases hm : denom ∈ denoms coins
  · obtain ⟨c, hc, rfl⟩ := List.mem_map.1 hm
    rw [total_of_mem h.distinct hc]
    exact (h.amounts c hc).2
  · rw [total_of_not_mem hm]
    decide

theorem mem_denoms_addTo {denom : String} {ts : List Coin} {c : Coin} :
    denom ∈ denoms (addTo ts c) ↔ denom = c.denom ∨ denom ∈ denoms ts := by
  induction ts with
  | nil => simp [addTo, denoms]
  | cons t ts ih =>
      rw [addTo]
      split
      · next h => simp [denoms, h]
      · simp only [denoms, List.map_cons, List.mem_cons] at ih ⊢
        rw [ih]
        exact or_left_comm

theorem nodup_addTo {ts : List Coin} (h : (denoms ts).Nodup) (c : Coin) :
    (denoms (addTo ts c)).Nodup := by
  induction ts with
  | nil => simp [addTo, denoms]
  | cons t ts ih =>
      have ht := List.nodup_cons.1 h
      rw [addTo]
      split
      · exact h
      · next hne =>
          refine List.nodup_cons.2 ⟨fun hm => ?_, ih ht.2⟩
          rcases mem_denoms_addTo.1 hm with hd | hd
          · exact hne hd
          · exact ht.1 hd

theorem nodup_totals (coins : List Coin) : (denoms (totals coins)).Nodup := by
  have h (ts : List Coin) (hts : (denoms ts).Nodup) :
      (denoms (coins.foldl addTo ts)).Nodup := by
    induction coins generalizing ts with
    | nil => exact hts
    | cons c cs ih => exact ih _ (nodup_addTo hts c)
  exact h [] List.nodup_nil

theorem total_filter_pos {denom : String} {coins : List Coin} (h : (denoms coins).Nodup) :
    total denom (coins.filter (fun c => 0 < c.amount)) = max 0 (total denom coins) := by
  induction coins with
  | nil => rfl
  | cons c cs ih =>
      have hc := List.nodup_cons.1 h
      have hcs := ih hc.2
      by_cases hd : c.denom = denom
      · have hz : total denom cs = 0 := total_of_not_mem (hd ▸ hc.1)
        rw [hz] at hcs
        by_cases hp : 0 < c.amount
        · rw [List.filter_cons_of_pos (by simpa using hp), total_cons, total_cons, hcs, hz,
            if_pos hd]
          omega
        · rw [List.filter_cons_of_neg (by simpa using hp), total_cons, hcs, hz, if_pos hd]
          omega
      · by_cases hp : 0 < c.amount
        · rw [List.filter_cons_of_pos (by simpa using hp), total_cons, total_cons, hcs, if_neg hd]
          omega
        · rw [List.filter_cons_of_neg (by simpa using hp), total_cons, hcs, if_neg hd]
          omega

theorem merge_eq_ok {coins merged : List Coin} (h : merge coins = .ok merged) :
    Sound merged ∧ ∀ denom, total denom merged = max 0 (total denom coins) := by
  unfold merge at h
  dsimp only at h
  split at h
  · next hall =>
      obtain rfl := Except.ok.inj h
      refine ⟨⟨?_, fun c hc => ?_⟩, fun denom => ?_⟩
      · exact List.Nodup.sublist (List.filter_sublist.map _) (nodup_totals coins)
      · have hg := List.all_eq_true.1 hall c hc
        have hp := (List.mem_filter.1 hc).2
        simp only [decide_eq_true_eq] at hg hp
        omega
      · rw [total_filter_pos (nodup_totals coins), total_totals]
  · cases h

theorem merge_eq_error {coins : List Coin} {f : Fault} (h : merge coins = .error f) :
    f = .misshapen := by
  unfold merge at h
  dsimp only at h
  split at h
  · cases h
  · exact (Except.error.inj h).symm

theorem merge_ok_iff (coins : List Coin) :
    (∃ merged, merge coins = .ok merged) ↔ ∀ denom, total denom coins ≤ greatest := by
  constructor
  · rintro ⟨merged, h⟩ denom
    obtain ⟨hs, ht⟩ := merge_eq_ok h
    have hle := hs.total_le denom
    rw [ht] at hle
    omega
  · intro h
    refine ⟨_, if_pos (List.all_eq_true.2 fun c hc => decide_eq_true ?_)⟩
    have htotal := total_of_mem (nodup_totals coins) (List.mem_filter.1 hc).1
    rw [← htotal, total_totals]
    exact h c.denom

end Coin

namespace Host.Bank

open Coin (denoms total Sound)

theorem held_eq_total {denom : String} {coins : List Coin} (h : (denoms coins).Nodup) :
    held denom coins = total denom coins := by
  induction coins with
  | nil => rfl
  | cons c cs ih =>
      have hc := List.nodup_cons.1 h
      rw [Coin.total_cons]
      by_cases hd : c.denom = denom
      · rw [if_pos hd, Coin.total_of_not_mem (hd ▸ hc.1)]
        simp [held, hd]
      · rw [if_neg hd, ← ih hc.2]
        simp [held, hd]

theorem denoms_withAmount (ts : List Coin) (c : Coin) :
    denoms (withAmount ts c) = denoms (Coin.addTo ts c) := by
  induction ts with
  | nil => rfl
  | cons t ts ih =>
      rw [withAmount, Coin.addTo]
      split
      · next h => simp [denoms, h]
      · simpa [denoms] using ih

theorem nodup_withAmount {ts : List Coin} (h : (denoms ts).Nodup) (c : Coin) :
    (denoms (withAmount ts c)).Nodup := by
  rw [denoms_withAmount]
  exact Coin.nodup_addTo h c

theorem total_withAmount {denom : String} {ts : List Coin} (h : (denoms ts).Nodup) (c : Coin) :
    total denom (withAmount ts c) = if c.denom = denom then c.amount else total denom ts := by
  induction ts with
  | nil => simp [withAmount, Coin.total_cons, Coin.total_nil]
  | cons t ts ih =>
      have ht := List.nodup_cons.1 h
      rw [withAmount]
      split
      · next heq =>
          rw [Coin.total_cons, Coin.total_cons, heq]
          split
          · next hd =>
              rw [Coin.total_of_not_mem (hd ▸ heq ▸ ht.1), Int.add_zero]
          · rfl
      · next hne =>
          rw [Coin.total_cons, Coin.total_cons, ih ht.2]
          by_cases hd : c.denom = denom
          · rw [if_pos hd, if_pos hd, if_neg (fun h => hne (h.trans hd.symm)), Int.zero_add]
          · rw [if_neg hd, if_neg hd]

theorem nonneg_withAmount {ts : List Coin} {c : Coin} (h : ∀ t ∈ ts, 0 ≤ t.amount)
    (hc : 0 ≤ c.amount) : ∀ t ∈ withAmount ts c, 0 ≤ t.amount := by
  induction ts with
  | nil => simpa [withAmount] using hc
  | cons t ts ih =>
      simp only [List.forall_mem_cons] at h
      rw [withAmount]
      split
      · exact List.forall_mem_cons.2 ⟨hc, h.2⟩
      · exact List.forall_mem_cons.2 ⟨h.1, ih h.2⟩

theorem distinct_of_nodup {coins : List Coin} (h : (denoms coins).Nodup) : distinct coins = coins := by
  have happend (ts : List Coin) (c : Coin) (hc : c.denom ∉ denoms ts) :
      withAmount ts c = ts ++ [c] := by
    induction ts with
    | nil => rfl
    | cons t ts ih =>
        simp only [denoms, List.map_cons, List.mem_cons, not_or] at hc
        rw [withAmount, if_neg (Ne.symm hc.1), ih hc.2, List.cons_append]
  have hfold (ts : List Coin) (hts : (denoms (ts ++ coins)).Nodup) :
      coins.foldl withAmount ts = ts ++ coins := by
    induction coins generalizing ts with
    | nil => simp
    | cons c cs ih =>
        have hc : c.denom ∉ denoms ts := by
          intro hm
          simp only [denoms, List.map_append, List.map_cons] at hts hm
          exact (List.nodup_append.1 hts).2.2 _ hm _ (List.mem_cons_self ..) rfl
        rw [List.foldl_cons, happend ts c hc, ih (List.nodup_cons.1 h).2 (ts ++ [c]) (by simpa using hts)]
        simp
  exact hfold [] h

theorem debitOne_eq_ok {address : String} {coins rest : List Coin} {c : Coin}
    (h : debitOne address coins c = .ok rest) (hd : (denoms coins).Nodup)
    (hn : ∀ t ∈ coins, 0 ≤ t.amount) :
    (denoms rest).Nodup ∧ (∀ t ∈ rest, 0 ≤ t.amount)
      ∧ ∀ denom, total denom rest = total denom coins - if c.denom = denom then c.amount else 0 := by
  unfold debitOne at h
  dsimp only at h
  split at h
  · cases h
  · next hle =>
      obtain rfl := Except.ok.inj h
      refine ⟨nodup_withAmount hd _, nonneg_withAmount hn (by simp only; omega), fun denom => ?_⟩
      rw [total_withAmount hd]
      simp only
      split
      · next heq => rw [held_eq_total hd, heq]
      · omega

theorem debit_eq_ok {address : String} {coins amount rest : List Coin}
    (h : debit address coins amount = .ok rest) (hd : (denoms coins).Nodup)
    (hn : ∀ t ∈ coins, 0 ≤ t.amount) :
    (∀ t ∈ rest, 0 ≤ t.amount)
      ∧ ∀ denom, total denom rest = total denom coins - total denom amount := by
  induction amount generalizing coins with
  | nil =>
      obtain rfl := Except.ok.inj h
      exact ⟨hn, fun denom => by rw [Coin.total_nil, Int.sub_zero]⟩
  | cons c cs ih =>
      unfold debit at h
      rw [List.foldlM_cons] at h
      cases hone : debitOne address coins c with
      | error s =>
          rw [hone] at h
          cases h
      | ok once =>
          rw [hone] at h
          obtain ⟨hd', hn', ht'⟩ := debitOne_eq_ok hone hd hn
          obtain ⟨hn'', ht''⟩ := ih h hd' hn'
          refine ⟨hn'', fun denom => ?_⟩
          rw [ht'', ht', Coin.total_cons]
          omega

theorem debit_of_le (address : String) {coins amount : List Coin} (hd : (denoms coins).Nodup)
    (ha : (denoms amount).Nodup) (hle : ∀ c ∈ amount, c.amount ≤ total c.denom coins) :
    ∃ rest, debit address coins amount = .ok rest := by
  induction amount generalizing coins with
  | nil => exact ⟨coins, rfl⟩
  | cons c cs ih =>
      obtain ⟨hhead, htail⟩ := List.nodup_cons.1 ha
      obtain ⟨hc, hcs⟩ := List.forall_mem_cons.1 hle
      have hone : debitOne address coins c
          = .ok (withAmount coins ⟨c.denom, held c.denom coins - c.amount⟩) := by
        rw [← held_eq_total hd] at hc
        unfold debitOne
        exact if_neg (by omega)
      have hothers : ∀ t ∈ cs, t.amount
          ≤ total t.denom (withAmount coins ⟨c.denom, held c.denom coins - c.amount⟩) := by
        intro t ht
        have hne : c.denom ≠ t.denom := fun heq => hhead (List.mem_map.2 ⟨t, ht, heq.symm⟩)
        rw [total_withAmount hd, if_neg hne]
        exact hcs t ht
      obtain ⟨rest, hrest⟩ := ih (nodup_withAmount hd _) htail hothers
      refine ⟨rest, ?_⟩
      unfold debit
      rw [List.foldlM_cons, hone]
      exact hrest

end Host.Bank

end DonationLedger
