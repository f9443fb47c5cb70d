import Mathlib.Data.List.Induction
import Mathlib.Data.List.Sort
import DonationLedger.Proofs.Coin.Merge

namespace DonationLedger.Coin

def Earlier (coins : List Coin) (d e : String) : Prop :=
  (denoms coins).idxOf d < (denoms coins).idxOf e

structure Sums (coins merged : List Coin) : Prop where
  distinct : (denoms merged).Nodup
  positive : ∀ c ∈ merged, 0 < c.amount
  totals : ∀ denom, total denom merged = total denom coins
  ordered : (denoms merged).Pairwise (Earlier coins)

variable {a a' b merged m : List Coin}

theorem denoms_append (as bs : List Coin) : denoms (as ++ bs) = denoms as ++ denoms bs :=
  List.map_append

theorem denoms_addTo (ts : List Coin) (c : Coin) :
    denoms (addTo ts c) = if c.denom ∈ denoms ts then denoms ts else denoms ts ++ [c.denom] := by
  induction ts with
  | nil => rfl
  | cons t ts ih =>
      rw [addTo]
      by_cases h : t.denom = c.denom
      · simp [denoms, h]
      · have hmem : c.denom ∈ denoms (t :: ts) ↔ c.denom ∈ denoms ts := by
          simp [denoms, Ne.symm h]
        rw [if_neg h]
        change t.denom :: denoms (addTo ts c) = _
        simp only [ih, hmem]
        split <;> rfl

theorem totals_concat (coins : List Coin) (c : Coin) :
    totals (coins ++ [c]) = addTo (totals coins) c :=
  List.foldl_concat ..

theorem mem_denoms_totals {denom : String} {coins : List Coin} :
    denom ∈ denoms (totals coins) ↔ denom ∈ denoms coins := by
  induction coins using List.reverseRecOn with
  | nil => rfl
  | append_singleton cs c ih =>
      rw [totals_concat, mem_denoms_addTo, ih]
      simp [denoms, or_comm]

theorem earlier_concat {coins : List Coin} {d e : String} (c : Coin) (hd : d ∈ denoms coins)
    (he : e ∈ denoms coins) : Earlier (coins ++ [c]) d e ↔ Earlier coins d e := by
  unfold Earlier
  rw [denoms_append, List.idxOf_append_of_mem hd, List.idxOf_append_of_mem he]

theorem earlier_last {coins : List Coin} {d : String} {c : Coin} (hd : d ∈ denoms coins)
    (hc : c.denom ∉ denoms coins) : Earlier (coins ++ [c]) d c.denom := by
  unfold Earlier
  rw [denoms_append, List.idxOf_append_of_mem hd, List.idxOf_append_of_notMem hc]
  exact Nat.lt_add_right _ (List.idxOf_lt_length_of_mem hd)

theorem ordered_totals (coins : List Coin) :
    (denoms (totals coins)).Pairwise (Earlier coins) := by
  induction coins using List.reverseRecOn with
  | nil => exact List.Pairwise.nil
  | append_singleton cs c ih =>
      have hkept : (denoms (totals cs)).Pairwise (Earlier (cs ++ [c])) :=
        ih.imp_of_mem fun hd he =>
          (earlier_concat c (mem_denoms_totals.1 hd) (mem_denoms_totals.1 he)).2
      rw [totals_concat, denoms_addTo]
      split
      · exact hkept
      · next hc =>
          rw [mem_denoms_totals] at hc
          refine List.pairwise_append.2 ⟨hkept, List.pairwise_singleton _ _, fun d hd e he => ?_⟩
          obtain rfl := List.mem_singleton.1 he
          exact earlier_last (mem_denoms_totals.1 hd) hc

theorem ordered_self {coins : List Coin} (h : (denoms coins).Nodup) :
    (denoms coins).Pairwise (Earlier coins) := by
  rw [List.pairwise_iff_getElem]
  intro i j hi hj hij
  unfold Earlier
  rwa [h.idxOf_getElem, h.idxOf_getElem]

namespace Sums

theorem mem_iff (h : Sums a m) {c : Coin} :
    c ∈ m ↔ 0 < c.amount ∧ c.amount = total c.denom a := by
  constructor
  · intro hc
    exact ⟨h.positive c hc, by rw [← h.totals, total_of_mem h.distinct hc]⟩
  · rintro ⟨hpos, hamount⟩
    have hdenom : c.denom ∈ denoms m := by
      by_contra hm
      rw [hamount, ← h.totals, total_of_not_mem hm] at hpos
      exact Int.lt_irrefl 0 hpos
    obtain ⟨d, hd, heq⟩ := List.mem_map.1 hdenom
    have hsame : d.amount = c.amount := by
      rw [hamount, ← heq, ← h.totals, total_of_mem h.distinct hd]
    have hcoin : d = c := by
      cases d
      cases c
      exact (Coin.mk.injEq ..).mpr ⟨heq, hsame⟩
    exact hcoin ▸ hd

theorem nodup (h : Sums a m) : m.Nodup := List.Nodup.of_map _ h.distinct

theorem perm (h : Sums a m) (h' : Sums a' merged) (ht : ∀ denom, total denom a = total denom a') :
    m.Perm merged := by
  refine (List.perm_ext_iff_of_nodup h.nodup h'.nodup).2 fun c => ?_
  rw [h.mem_iff, h'.mem_iff, ht]

theorem unique (h : Sums a m) (h' : Sums a merged) : m = merged := by
  have hm := List.pairwise_map.1 h.ordered
  have hmerged := List.pairwise_map.1 h'.ordered
  refine List.Perm.eq_of_pairwise (fun c d _ _ hcd hdc => ?_) hm hmerged (h.perm h' fun _ => rfl)
  exact absurd hdc (Nat.lt_asymm hcd)

theorem self (h : Sums a m) : Sums m m :=
  ⟨h.distinct, h.positive, fun _ => rfl, ordered_self h.distinct⟩

end Sums

theorem sums_of_merge (ha : ∀ c ∈ a, 0 ≤ c.amount) (h : merge a = .ok m) : Sums a m := by
  obtain ⟨hsound, htotal⟩ := merge_eq_ok h
  refine ⟨hsound.distinct, fun c hc => ?_, fun denom => ?_, ?_⟩
  · have := (hsound.amounts c hc).1
    omega
  · rw [htotal, max_eq_right (total_nonneg denom ha)]
  · unfold merge at h
    dsimp only at h
    split at h
    · obtain rfl := Except.ok.inj h
      exact (ordered_totals a).sublist (List.filter_sublist.map _)
    · cases h

theorem merge_eq_ok_iff (ha : ∀ c ∈ a, 0 ≤ c.amount) :
    merge a = .ok m ↔ (∀ denom, total denom a ≤ greatest) ∧ Sums a m := by
  constructor
  · intro h
    exact ⟨(merge_ok_iff a).1 ⟨m, h⟩, sums_of_merge ha h⟩
  · rintro ⟨hle, hm⟩
    obtain ⟨merged, h⟩ := (merge_ok_iff a).2 hle
    rw [h, (sums_of_merge ha h).unique hm]

theorem total_perm (denom : String) (h : a.Perm a') : total denom a = total denom a' := by
  induction h with
  | nil => rfl
  | cons c h ih => rw [total_cons, total_cons, ih]
  | swap c d coins =>
      simp only [total_cons]
      omega
  | trans h h' ih ih' => rw [ih, ih']

theorem merge_eq_error_iff : merge a = .error .misshapen ↔ ∃ denom, greatest < total denom a := by
  have hok := merge_ok_iff a
  cases h : merge a with
  | error f =>
      rw [h] at hok
      obtain rfl := merge_eq_error h
      simpa using hok
  | ok m =>
      have hle := hok.1 ⟨m, h⟩
      simpa using hle

theorem merge_of_totals (ha : ∀ c ∈ a, 0 ≤ c.amount) (ha' : ∀ c ∈ a', 0 ≤ c.amount)
    (ht : ∀ denom, total denom a = total denom a') :
    (∃ m m', merge a = .ok m ∧ merge a' = .ok m' ∧ m.Perm m')
      ∨ merge a = .error .misshapen ∧ merge a' = .error .misshapen := by
  cases h : merge a with
  | error f =>
      obtain rfl := merge_eq_error h
      refine .inr ⟨rfl, merge_eq_error_iff.2 ?_⟩
      simpa only [ht] using merge_eq_error_iff.1 h
  | ok m =>
      have hle := (merge_ok_iff a).1 ⟨m, h⟩
      obtain ⟨m', h'⟩ := (merge_ok_iff a').2 fun denom => ht denom ▸ hle denom
      exact .inl ⟨m, m', rfl, h', (sums_of_merge ha h).perm (sums_of_merge ha' h') ht⟩

theorem merge_canonical (ha : ∀ c ∈ a, c.Valid) :
    (merge a = .error .misshapen ↔ ∃ denom, greatest < total denom a)
      ∧ (∀ m, merge a = .ok m ↔ (∀ denom, total denom a ≤ greatest) ∧ Sums a m)
      ∧ (∀ m, merge a = .ok m → merge m = .ok m)
      ∧ (∀ m b, merge a = .ok m → (∀ c ∈ b, c.Valid) →
        (∃ x y, merge (m ++ b) = .ok x ∧ merge (a ++ b) = .ok y
          ∧ ∀ denom, total denom x = total denom y)
        ∨ merge (m ++ b) = .error .misshapen ∧ merge (a ++ b) = .error .misshapen)
      ∧ ∀ a', a.Perm a' → (∃ m m', merge a = .ok m ∧ merge a' = .ok m' ∧ m.Perm m')
        ∨ merge a = .error .misshapen ∧ merge a' = .error .misshapen := by
  have hnonneg (coins : List Coin) (h : ∀ c ∈ coins, c.Valid) : ∀ c ∈ coins, 0 ≤ c.amount :=
    fun c hc => (h c hc).1
  refine ⟨merge_eq_error_iff, fun m => merge_eq_ok_iff (hnonneg a ha), fun m h => ?_,
    fun m b h hb => ?_, fun a' hp => ?_⟩
  · obtain ⟨hsound, -⟩ := merge_eq_ok h
    exact (merge_eq_ok_iff hsound.nonneg).2
      ⟨hsound.total_le, (sums_of_merge (hnonneg a ha) h).self⟩
  · have hm := (merge_eq_ok h).1.valid
    have ht (denom : String) : total denom (m ++ b) = total denom (a ++ b) := by
      rw [total_append, total_append, (sums_of_merge (hnonneg a ha) h).totals]
    rcases merge_of_totals (hnonneg _ (List.forall_mem_append.2 ⟨hm, hb⟩))
      (hnonneg _ (List.forall_mem_append.2 ⟨ha, hb⟩)) ht with ⟨x, y, hx, hy, hp⟩ | hrefused
    · exact .inl ⟨x, y, hx, hy, fun denom => total_perm denom hp⟩
    · exact .inr hrefused
  · have ha' : ∀ c ∈ a', c.Valid := fun c hc => ha c (hp.mem_iff.2 hc)
    exact merge_of_totals (hnonneg a ha) (hnonneg a' ha') fun denom => total_perm denom hp

theorem merge_canonical_zero :
    let a : List Coin := [⟨"atom", 0⟩, ⟨"btc", 2⟩, ⟨"eth", 0⟩, ⟨"atom", 3⟩, ⟨"btc", 1⟩]
    (∀ c ∈ a, c.Valid) ∧ Sums a [⟨"atom", 3⟩, ⟨"btc", 3⟩]
      ∧ merge [⟨"atom", 3⟩, ⟨"btc", 3⟩] = .ok [⟨"atom", 3⟩, ⟨"btc", 3⟩]
      ∧ ∃ m, merge a.reverse = .ok m ∧ m.Perm [⟨"atom", 3⟩, ⟨"btc", 3⟩] := by
  intro a
  have ha : ∀ c ∈ a, c.Valid := by decide
  obtain ⟨-, hok, hagain, -, hperm⟩ := merge_canonical ha
  have hmerge : merge a = .ok [⟨"atom", 3⟩, ⟨"btc", 3⟩] := by rfl
  refine ⟨ha, ((hok _).1 hmerge).2, hagain _ hmerge, ?_⟩
  rcases hperm a.reverse (List.reverse_perm a).symm with ⟨m, m', h, h', hp⟩ | ⟨h, -⟩
  · obtain rfl := Except.ok.inj (h.symm.trans hmerge)
    exact ⟨m', h', hp.symm⟩
  · cases h.symm.trans hmerge

end DonationLedger.Coin
