import Mathlib.Data.List.Chain
import Mathlib.Data.List.Duplicate

namespace DonationLedger.Host

variable {α : Type} {R : α → α → Prop}

structure Circuit (R : α → α → Prop) (x : α) (xs : List α) : Prop where
  distinct : (x :: xs).Nodup
  closed : List.IsChain R (x :: (xs ++ [x]))

theorem Circuit.next {x : α} {xs : List α} (h : Circuit R x xs) : ∃ y, R x y := by
  have hclosed := h.closed
  cases xs with
  | nil => exact ⟨x, (List.isChain_cons_cons.1 hclosed).1⟩
  | cons y ys => exact ⟨y, (List.isChain_cons_cons.1 hclosed).1⟩

theorem exists_between_of_sublist {x : α} {xs l : List α} (h : (x :: x :: xs).Sublist l) :
    ∃ a b c, l = a ++ x :: (b ++ x :: c) ∧ xs.Sublist c := by
  obtain ⟨r₁, r₂, rfl, h₁, h₂⟩ := List.cons_sublist_iff.1 h
  obtain ⟨s₁, s₂, rfl, h₃, h₄⟩ := List.cons_sublist_iff.1 h₂
  obtain ⟨a, b, rfl⟩ := List.append_of_mem h₁
  obtain ⟨b', c, rfl⟩ := List.append_of_mem h₃
  refine ⟨a, b ++ b', c ++ s₂, by simp, h₄.trans (List.sublist_append_right _ _)⟩

theorem exists_circuit {x : α} {xs : List α} (h : List.IsChain R (x :: (xs ++ [x]))) :
    ∃ y ys, Circuit R y ys ∧ ∀ z ∈ y :: ys, z ∈ x :: xs := by
  generalize hn : xs.length = n
  induction n using Nat.strongRecOn generalizing x xs with
  | ind n ih =>
      by_cases hd : (x :: xs).Nodup
      · exact ⟨x, xs, ⟨hd, h⟩, fun _ hz => hz⟩
      · obtain ⟨z, hz⟩ := List.exists_duplicate_iff_not_nodup.2 hd
        obtain ⟨a, b, c, hsplit, -⟩ := exists_between_of_sublist (List.duplicate_iff_sublist.1 hz)
        have hshort : b.length < n := by
          have := congrArg List.length hsplit
          simp only [List.length_cons, List.length_append] at this
          omega
        have hchain : List.IsChain R (z :: (b ++ [z])) := by
          have hall : List.IsChain R (a ++ z :: (b ++ z :: (c ++ [x]))) := by
            have heq : x :: (xs ++ [x]) = a ++ z :: (b ++ z :: (c ++ [x])) := by
              rw [← List.cons_append, hsplit]
              simp
            exact heq ▸ h
          have hrest := (List.isChain_split.1 hall).2
          exact (List.isChain_cons_split.1 hrest).1
        obtain ⟨y, ys, hcircuit, hmem⟩ := ih _ hshort hchain rfl
        refine ⟨y, ys, hcircuit, fun w hw => ?_⟩
        rw [hsplit]
        have := hmem w hw
        simp only [List.mem_append, List.mem_cons] at this ⊢
        tauto

section Functional

variable (hR : ∀ a b c : α, R a b → R a c → b = c)

include hR

theorem next_mem {x : α} {xs : List α} (h : List.IsChain R (x :: (xs ++ [x]))) {z w : α}
    (hz : z ∈ x :: xs) (hw : R z w) : w ∈ x :: xs := by
  obtain ⟨a, b, hsplit⟩ := List.append_of_mem hz
  have hall : List.IsChain R (a ++ z :: (b ++ [x])) := by
    have heq : x :: (xs ++ [x]) = a ++ z :: (b ++ [x]) := by
      rw [← List.cons_append, hsplit]
      simp
    exact heq ▸ h
  have hrest := (List.isChain_split.1 hall).2
  cases b with
  | nil =>
      rw [hR _ _ _ hw (List.isChain_cons_cons.1 hrest).1]
      exact List.mem_cons_self ..
  | cons y b =>
      rw [hR _ _ _ hw (List.isChain_cons_cons.1 hrest).1, hsplit]
      simp

theorem mem_of_walk {x : α} {xs : List α} (h : List.IsChain R (x :: (xs ++ [x]))) {y : α}
    {ys : List α} (hy : y ∈ x :: xs) (hwalk : List.IsChain R (y :: ys)) :
    ∀ z ∈ y :: ys, z ∈ x :: xs := by
  induction ys generalizing y with
  | nil => simpa using hy
  | cons w ys ih =>
      obtain ⟨hyw, hrest⟩ := List.isChain_cons_cons.1 hwalk
      exact List.forall_mem_cons.2 ⟨hy, ih (next_mem hR h hy hyw) hrest⟩

theorem count_le_two [DecidableEq α] {slow : α → Prop} {l : List α} (h : List.IsChain R l)
    (hslow : ∀ x xs, Circuit R x xs → ∃ z ∈ x :: xs, slow z)
    (honce : ∀ z, slow z → l.dropLast.count z ≤ 1) (x : α) : l.count x ≤ 2 := by
  refine Nat.le_of_not_lt (fun hcount => ?_)
  have hsub : [x, x, x].Sublist l := List.replicate_sublist_iff.2 hcount
  obtain ⟨a, b, c, rfl, hx⟩ := exists_between_of_sublist hsub
  obtain ⟨b', c', rfl⟩ := List.append_of_mem (List.singleton_sublist.1 hx)
  have h₁ := (List.isChain_split.1 h).2
  obtain ⟨hfirst, h₂⟩ := List.isChain_cons_split.1 h₁
  obtain ⟨hsecond, -⟩ := List.isChain_cons_split.1 h₂
  obtain ⟨y, ys, hcircuit, hmem⟩ := exists_circuit hfirst
  obtain ⟨z, hz, hzslow⟩ := hslow y ys hcircuit
  have hz₁ := hmem z hz
  have hz₂ := mem_of_walk hR hsecond (List.mem_cons_self ..) hfirst z
    (by simp only [List.mem_cons, List.mem_append] at hz₁ ⊢; tauto)
  have htwice := honce z hzslow
  have hdrop : (a ++ x :: (b ++ x :: (b' ++ x :: c'))).dropLast
      = a ++ (x :: b) ++ (x :: b') ++ (x :: c').dropLast := by
    rw [← List.dropLast_append_of_ne_nil (List.cons_ne_nil x c')]
    simp
  rw [hdrop, List.count_append, List.count_append, List.count_append] at htwice
  have := List.count_pos_iff.2 hz₁
  have := List.count_pos_iff.2 hz₂
  omega

end Functional

theorem nodup_of_no_circuit {l : List α} (h : List.IsChain R l)
    (hnone : ∀ x xs, ¬Circuit R x xs) : l.Nodup := by
  by_contra hd
  obtain ⟨x, hx⟩ := List.exists_duplicate_iff_not_nodup.2 hd
  obtain ⟨a, b, c, rfl, -⟩ := exists_between_of_sublist (List.duplicate_iff_sublist.1 hx)
  have hrest := (List.isChain_split.1 h).2
  obtain ⟨y, ys, hcircuit, -⟩ := exists_circuit (List.isChain_cons_split.1 hrest).1
  exact hnone y ys hcircuit

theorem length_le_of_count_le [DecidableEq α] {l m : List α} {k : Nat}
    (hk : ∀ x, l.count x ≤ k) (hm : ∀ x ∈ l, x ∈ m) : l.length ≤ k * m.length := by
  induction m generalizing l with
  | nil => simp [List.eq_nil_iff_forall_not_mem.2 (fun x hx => List.not_mem_nil (hm x hx))]
  | cons y m ih =>
      have hrest : (l.filter (· ≠ y)).length ≤ k * m.length := by
        refine ih (fun x => ?_) (fun x hx => ?_)
        · exact Nat.le_trans (List.filter_sublist.count_le x) (hk x)
        · obtain ⟨hx, hne⟩ := List.mem_filter.1 hx
          exact (List.mem_cons.1 (hm x hx)).resolve_left (by simpa using hne)
      have hsplit : l.length = l.count y + (l.filter (· ≠ y)).length := by
        rw [List.length_eq_countP_add_countP (· == y), List.count, ← List.countP_eq_length_filter]
        simp
      have := hk y
      rw [List.length_cons, Nat.mul_succ]
      omega

end DonationLedger.Host
