import DonationLedger.Proofs.Store.Page
import DonationLedger.Store.Shelf

namespace DonationLedger

namespace Store

inductive Matches : Store → Store → Prop where
  | base (c c' : Content) (b : Backend) : Matches (base c b) (base c' b)
  | view (p : Bytes) {s t : Store} (h : Matches s t) : Matches (view p s) (view p t)
  | overlay (w w' : Pending) {s t : Store} (h : Matches s t) : Matches (overlay w s) (overlay w' t)

theorem Matches.refl (s : Store) : Matches s s := by
  induction s with
  | base c b => exact .base c c b
  | view p s ih => exact .view p ih
  | overlay w s ih => exact .overlay w w ih

theorem Alike.matches {s t : Store} (h : Alike s t) : Matches s t := by
  induction h with
  | base c c' b => exact .base c c' b
  | view _ _ ih => exact .view _ ih
  | overlay w w' s => exact .overlay w w' (.refl s)

end Store

def Layer.Fits (n : Nat) : Layer → Prop
  | base _ b => b = .sound
  | view _ m => m < n
  | overlay _ m => m < n

namespace Shelf

variable {layers earlier : List Layer} {layer : Layer} {n m t j : Nat} {s : Store} {w : Pending}

def Standing : List Layer → Prop
  | [] => True
  | layer :: earlier => layer.Fits earlier.length ∧ Standing earlier

def find? : List Layer → Nat → Option Layer
  | [], _ => none
  | layer :: earlier, n => if n = earlier.length then some layer else find? earlier n

def descent : List Layer → Nat → List Nat
  | [], _ => []
  | layer :: earlier, n =>
      if n = earlier.length then
        match layer with
        | .base _ _ => [n]
        | .view _ m => n :: descent earlier m
        | .overlay _ m => n :: descent earlier m
      else descent earlier n

/-- The layer that takes the writes through a layer. -/
def seat : List Layer → Nat → Nat
  | [], n => n
  | layer :: earlier, n =>
      if n = earlier.length then
        match layer with
        | .view _ m => seat earlier m
        | _ => n
      else seat earlier n

theorem lt_earlier (hn : n < (layer :: earlier).length) (h : n ≠ earlier.length) :
    n < earlier.length :=
  Nat.lt_of_le_of_ne (Nat.le_of_lt_succ hn) h

theorem assemble_earlier (h : n ≠ earlier.length) :
    assemble (layer :: earlier) n = assemble earlier n := if_neg h

theorem find?_earlier (h : n ≠ earlier.length) : find? (layer :: earlier) n = find? earlier n :=
  if_neg h

theorem descent_earlier (h : n ≠ earlier.length) :
    descent (layer :: earlier) n = descent earlier n := if_neg h

theorem seat_earlier (h : n ≠ earlier.length) : seat (layer :: earlier) n = seat earlier n :=
  if_neg h

theorem spread_earlier (h : n ≠ earlier.length) :
    spread (layer :: earlier) n s = layer :: spread earlier n s := if_neg h

inductive Place (layers : List Layer) (n : Nat) : Prop where
  | base (c : Content) (layer : find? layers n = some (.base c .sound))
      (store : assemble layers n = Store.memory c) (descent : descent layers n = [n])
      (seat : seat layers n = n)
  | view (p : Bytes) (m : Nat) (lt : m < n) (layer : find? layers n = some (.view p m))
      (store : assemble layers n = .view p (assemble layers m))
      (descent : descent layers n = n :: descent layers m) (seat : seat layers n = seat layers m)
  | overlay (w : Pending) (m : Nat) (lt : m < n) (layer : find? layers n = some (.overlay w m))
      (store : assemble layers n = .overlay w (assemble layers m))
      (descent : descent layers n = n :: descent layers m) (seat : seat layers n = n)

theorem Place.cons (h : Place earlier n) (hn : n < earlier.length) :
    Place (layer :: earlier) n := by
  have hne : n ≠ earlier.length := by omega
  cases h with
  | base c layer store descent seat =>
      refine .base c ?_ ?_ ?_ ?_
      · rw [find?_earlier hne, layer]
      · rw [assemble_earlier hne, store]
      · rw [descent_earlier hne, descent]
      · rw [seat_earlier hne, seat]
  | view p m lt layer store descent seat =>
      have hm : m ≠ earlier.length := by omega
      refine .view p m lt ?_ ?_ ?_ ?_
      · rw [find?_earlier hne, layer]
      · rw [assemble_earlier hne, assemble_earlier hm, store]
      · rw [descent_earlier hne, descent_earlier hm, descent]
      · rw [seat_earlier hne, seat_earlier hm, seat]
  | overlay w m lt layer store descent seat =>
      have hm : m ≠ earlier.length := by omega
      refine .overlay w m lt ?_ ?_ ?_ ?_
      · rw [find?_earlier hne, layer]
      · rw [assemble_earlier hne, assemble_earlier hm, store]
      · rw [descent_earlier hne, descent_earlier hm, descent]
      · rw [seat_earlier hne, seat]

namespace Standing

theorem place (h : Standing layers) (hn : n < layers.length) : Place layers n := by
  induction layers generalizing n with
  | nil => cases hn
  | cons layer earlier ih =>
      by_cases he : n = earlier.length
      · cases layer with
        | base c b =>
            obtain rfl : b = .sound := h.1
            exact .base c (if_pos he) (if_pos he) (if_pos he) (if_pos he)
        | view p m =>
            have hm : m < earlier.length := h.1
            have hne : m ≠ earlier.length := by omega
            refine .view p m (by omega) (if_pos he) ?_ ?_ ?_
            · rw [assemble_earlier hne]
              exact if_pos he
            · rw [descent_earlier hne]
              exact if_pos he
            · rw [seat_earlier hne]
              exact if_pos he
        | overlay w m =>
            have hm : m < earlier.length := h.1
            have hne : m ≠ earlier.length := by omega
            refine .overlay w m (by omega) (if_pos he) ?_ ?_ (if_pos he)
            · rw [assemble_earlier hne]
              exact if_pos he
            · rw [descent_earlier hne]
              exact if_pos he
      · exact (ih h.2 (lt_earlier hn he)).cons (lt_earlier hn he)

theorem isOpen (h : Standing layers) (n : Nat) : (assemble layers n).isOpen = true := by
  induction layers generalizing n with
  | nil => rfl
  | cons layer earlier ih =>
      simp only [assemble]
      split
      · cases layer with
        | base c b =>
            obtain rfl : b = .sound := h.1
            rfl
        | view p m => exact ih h.2 m
        | overlay w m => exact Store.isOpen_overlay (ih h.2 m) w
      · exact ih h.2 n

theorem inner_isOpen (h : Standing layers) (n : Nat) :
    (assemble layers n).inner.isOpen = true := by
  induction layers generalizing n with
  | nil => rfl
  | cons layer earlier ih =>
      simp only [assemble]
      split
      · cases layer with
        | base c b =>
            obtain rfl : b = .sound := h.1
            rfl
        | view p m => exact isOpen h.2 m
        | overlay w m => exact isOpen h.2 m
      · exact ih h.2 n

end Standing

theorem length_spread (layers : List Layer) (n : Nat) (s : Store) :
    (spread layers n s).length = layers.length := by
  fun_induction spread layers n s <;> simp_all

theorem spread_assemble (layers : List Layer) (n : Nat) :
    spread layers n (assemble layers n) = layers := by
  induction layers generalizing n with
  | nil => rfl
  | cons layer earlier ih =>
      by_cases hn : n = earlier.length
      · cases layer <;> simp [spread, assemble, hn, ih]
      · rw [assemble_earlier hn, spread_earlier hn, ih]

theorem descent_spread (layers : List Layer) (n : Nat) (s : Store) (j : Nat) :
    descent (spread layers n s) j = descent layers j := by
  fun_induction spread layers n s generalizing j <;> simp_all [descent, length_spread]

theorem find?_spread_overlay (h : find? layers t = some (.overlay w m)) (n : Nat) (s : Store) :
    ∃ w', find? (spread layers n s) t = some (.overlay w' m) := by
  fun_induction spread layers n s generalizing w with
  | case1 n s => exact ⟨w, h⟩
  | case2 earlier s =>
      simp only [find?] at h ⊢
      split at h
      · cases h
      · next ht => exact ⟨w, (if_neg ht).trans h⟩
  | case3 earlier p k q s ih =>
      simp only [find?, length_spread] at h ⊢
      split at h
      · cases h
      · next ht =>
          rw [if_neg ht]
          exact ih h
  | case4 earlier w₁ k w₂ s ih =>
      simp only [find?, length_spread] at h ⊢
      split at h
      · next ht =>
          cases h
          exact ⟨w₂, if_pos ht⟩
      · next ht =>
          rw [if_neg ht]
          exact ih h
  | case5 => exact ⟨w, h⟩
  | case6 layer earlier n s hn ih =>
      simp only [find?, length_spread] at h ⊢
      split
      · next ht =>
          rw [if_pos ht] at h
          exact ⟨w, h⟩
      · next ht =>
          rw [if_neg ht] at h
          exact ih h

namespace Standing

theorem spread (h : Standing layers) (hs : (assemble layers n).Matches s) :
    Standing (spread layers n s)
      ∧ (n < layers.length → assemble (Shelf.spread layers n s) n = s) := by
  induction layers generalizing n s with
  | nil => exact ⟨trivial, nofun⟩
  | cons layer earlier ih =>
      by_cases hn : n = earlier.length
      · subst hn
        cases layer with
        | base c b =>
            simp only [assemble, if_true] at hs
            cases hs with
            | base _ c' _ =>
                simp only [Shelf.spread, if_true]
                exact ⟨h, fun _ => if_pos rfl⟩
        | view p m =>
            simp only [assemble, if_true] at hs
            cases hs with
            | view _ hs =>
                obtain ⟨hstanding, hput⟩ := ih h.2 hs
                simp only [Shelf.spread, if_true, Standing, assemble, length_spread]
                exact ⟨⟨h.1, hstanding⟩, fun _ => congrArg (Store.view p) (hput h.1)⟩
        | overlay w m =>
            simp only [assemble, if_true] at hs
            cases hs with
            | overlay _ w' hs =>
                obtain ⟨hstanding, hput⟩ := ih h.2 hs
                simp only [Shelf.spread, if_true, Standing, assemble, length_spread]
                exact ⟨⟨h.1, hstanding⟩, fun _ => congrArg (Store.overlay w') (hput h.1)⟩
      · rw [assemble_earlier hn] at hs
        obtain ⟨hstanding, hput⟩ := ih h.2 hs
        rw [spread_earlier hn, assemble_earlier (by rwa [length_spread])]
        refine ⟨⟨?_, hstanding⟩, fun hlt => hput (lt_earlier hlt hn)⟩
        rw [length_spread]
        exact h.1

end Standing

theorem assemble_spread_other (hs : (assemble layers n).Alike s)
    (hj : seat layers n ∉ descent layers j) :
    assemble (spread layers n s) j = assemble layers j := by
  induction layers generalizing n s j with
  | nil => rfl
  | cons layer earlier ih =>
      by_cases hn : n = earlier.length
      · subst hn
        cases layer with
        | base c b =>
            simp only [assemble, if_true] at hs
            simp only [seat, if_true] at hj
            cases hs with
            | base _ c' _ =>
                have hje : j ≠ earlier.length := by
                  rintro rfl
                  simp [descent] at hj
                simp only [spread, if_true, assemble_earlier hje]
        | view p m =>
            simp only [assemble, if_true] at hs
            simp only [seat, if_true] at hj
            cases hs with
            | view hs _ =>
                simp only [spread, if_true, assemble, length_spread]
                simp only [descent] at hj
                split
                · next hje =>
                    rw [if_pos hje] at hj
                    rw [ih hs (List.not_mem_of_not_mem_cons hj)]
                · next hje =>
                    rw [if_neg hje] at hj
                    exact ih hs hj
        | overlay w m =>
            simp only [assemble, if_true] at hs
            simp only [seat, if_true] at hj
            cases hs with
            | overlay _ w' _ =>
                have hje : j ≠ earlier.length := by
                  rintro rfl
                  simp [descent] at hj
                simp only [spread, if_true, spread_assemble, assemble_earlier hje]
      · rw [assemble_earlier hn] at hs
        rw [seat_earlier hn] at hj
        rw [spread_earlier hn]
        by_cases hje : j = earlier.length
        · subst hje
          cases layer with
          | base c b => simp only [assemble, length_spread, if_true]
          | view p m =>
              simp only [descent, if_true, List.mem_cons, not_or] at hj
              simp only [assemble, length_spread, if_true, ih hs hj.2]
          | overlay w m =>
              simp only [descent, if_true, List.mem_cons, not_or] at hj
              simp only [assemble, length_spread, if_true, ih hs hj.2]
        · rw [descent_earlier hje] at hj
          rw [assemble_earlier hje, assemble_earlier (by rwa [length_spread]), ih hs hj]

theorem lt_of_find? (h : find? layers n = some layer) : n < layers.length := by
  induction layers with
  | nil => cases h
  | cons layer' earlier ih =>
      by_cases hn : n = earlier.length
      · simp [hn]
      · rw [find?_earlier hn] at h
        exact Nat.lt_succ_of_lt (ih h)

theorem lt_of_mem_descent (h : t ∈ descent layers n) : n < layers.length := by
  induction layers generalizing n with
  | nil => cases h
  | cons layer earlier ih =>
      by_cases hn : n = earlier.length
      · simp [hn]
      · rw [descent_earlier hn] at h
        exact Nat.lt_succ_of_lt (ih h)

namespace Standing

theorem overlay_eq (h : Standing layers) (ht : find? layers t = some (.overlay w m)) :
    m < t ∧ assemble layers t = .overlay w (assemble layers m)
      ∧ descent layers t = t :: descent layers m ∧ seat layers t = t := by
  cases h.place (lt_of_find? ht) with
  | base c layer => rw [layer] at ht; cases ht
  | view p m' lt layer => rw [layer] at ht; cases ht
  | overlay w' m' lt layer store descent seat =>
      rw [layer] at ht
      cases ht
      exact ⟨lt, store, descent, seat⟩

theorem spread_overlay (h : Standing layers)
    (ht : find? layers t = some (.overlay w m))
    (hs : (assemble layers m).Matches s) (w' : Pending) :
    Shelf.spread layers t (.overlay w' s)
      = Shelf.spread (Shelf.spread layers m s) t (.overlay w' s) := by
  induction layers generalizing w with
  | nil => rfl
  | cons layer earlier ih =>
      by_cases hte : t = earlier.length
      · subst hte
        simp only [find?, if_true, Option.some.injEq] at ht
        subst ht
        have hm : m < earlier.length := h.1
        have hme : m ≠ earlier.length := by omega
        rw [assemble_earlier hme] at hs
        have hagain :
            Shelf.spread (Shelf.spread earlier m s) m s = Shelf.spread earlier m s := by
          have := spread_assemble (Shelf.spread earlier m s) m
          rwa [(h.2.spread hs).2 hm] at this
        rw [spread_earlier hme]
        simp only [Shelf.spread, length_spread, if_true, hagain]
      · rw [find?_earlier hte] at ht
        have hlt := lt_of_find? ht
        have hm := (overlay_eq h.2 ht).1
        have hme : m ≠ earlier.length := by omega
        rw [assemble_earlier hme] at hs
        rw [spread_earlier hte, spread_earlier hme, spread_earlier (by rwa [length_spread]),
          ih h.2 ht hs]

theorem mem_descent (h : Standing layers) (ht : t ∈ descent layers n) :
    t = n ∨ ∃ m, m < n ∧ t ∈ descent layers m
      ∧ ∀ j, j ∈ descent layers m → j ∈ descent layers n := by
  cases h.place (lt_of_mem_descent ht) with
  | base c layer store descent seat =>
      rw [descent, List.mem_singleton] at ht
      exact .inl ht
  | view p m lt layer store descent seat =>
      rw [descent] at ht ⊢
      exact (List.mem_cons.1 ht).imp_right fun ht => ⟨m, lt, ht, fun j => List.mem_cons_of_mem n⟩
  | overlay w m lt layer store descent seat =>
      rw [descent] at ht ⊢
      exact (List.mem_cons.1 ht).imp_right fun ht => ⟨m, lt, ht, fun j => List.mem_cons_of_mem n⟩

theorem mem_descent_trans (h : Standing layers) (hj : j ∈ descent layers n)
    (ht : t ∈ descent layers j) : t ∈ descent layers n := by
  induction n using Nat.strongRecOn with
  | ind n ih =>
      obtain rfl | ⟨m, hm, hjm, hup⟩ := h.mem_descent hj
      · exact ht
      · exact hup t (ih m hm hjm)

theorem le_of_mem_descent (h : Standing layers) (ht : t ∈ descent layers n) : t ≤ n := by
  induction n using Nat.strongRecOn with
  | ind n ih =>
      obtain rfl | ⟨m, hm, htm, -⟩ := h.mem_descent ht
      · exact Nat.le_refl t
      · exact Nat.le_trans (ih m hm htm) (Nat.le_of_lt hm)

theorem not_mem_descent_below (h : Standing layers) (hj : j ∈ descent layers t) (hne : j ≠ t) :
    t ∉ descent layers j :=
  fun ht => hne (Nat.le_antisymm (h.le_of_mem_descent hj) (h.le_of_mem_descent ht))

theorem mem_descent_seat (h : Standing layers) (ht : find? layers t = some (.overlay w m))
    (hn : t ∈ descent layers n) : t ∈ descent layers (seat layers n) := by
  induction n using Nat.strongRecOn with
  | ind n ih =>
      cases h.place (lt_of_mem_descent hn) with
      | base c layer store descent seat => rwa [seat]
      | view p m' lt layer store descent seat =>
          rw [descent, List.mem_cons] at hn
          rw [seat]
          cases hn with
          | inl hn =>
              rw [hn, layer] at ht
              cases ht
          | inr hn => exact ih m' lt hn
      | overlay w' m' lt layer store descent seat => rwa [seat]

theorem seat_not_mem (h : Standing layers) (ht : find? layers t = some (.overlay w m))
    (hn : t ∈ descent layers n) (hj : t ∉ descent layers j) :
    seat layers n ∉ descent layers j :=
  fun hmem => hj (h.mem_descent_trans hmem (h.mem_descent_seat ht hn))

end Standing

end Shelf

end DonationLedger
