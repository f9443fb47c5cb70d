import DonationLedger.Proofs.Store.Layers

namespace DonationLedger

inductive Move where
  | memory (c : Content)
  | view (name : String) (below : Nat)
  | overlay (below : Nat)
  | get (n : Nat) (k : Bytes)
  | put (n : Nat) (k : Bytes) (v : Option Bytes)
  | items (n : Nat)
  | commit (n : Nat)
  | discard (n : Nat)

namespace Shelf

def shown (shelf : Shelf) (n : Nat) : Content := (shelf.store n).content

def raise (shelf : Shelf) (layer : Layer) (below : Nat) : Shelf :=
  if below < shelf.next then shelf.push layer else shelf

def settle (shelf : Shelf) (n : Nat) : Except Fault Store → Shelf
  | .ok s => shelf.putBack n s
  | .error _ => shelf

def after (shelf : Shelf) : Move → Shelf
  | .memory c => shelf.push (.base c true)
  | .view name m =>
      match Store.front? name with
      | some p => shelf.raise (.view p m) m
      | none => shelf
  | .overlay m => shelf.raise (.overlay Pending.empty m) m
  | .get _ _ => shelf
  | .put n k v => shelf.settle n ((shelf.store n).put k v)
  | .items _ => shelf
  | .commit n => shelf.settle n (shelf.store n).commit
  | .discard n => shelf.putBack n (shelf.store n).discard

def afterAll (shelf : Shelf) (moves : List Move) : Shelf := moves.foldl after shelf

variable {shelf : Shelf} {n m t j : Nat} {s : Store} {w : Pending}

theorem standing_push {layer : Layer} (h : Standing shelf.layers) (hl : layer.Fits shelf.next) :
    Standing (shelf.push layer).layers := ⟨hl, h⟩

theorem standing_raise {layer : Layer} (h : Standing shelf.layers)
    (hl : m < shelf.next → layer.Fits shelf.next) : Standing (shelf.raise layer m).layers := by
  unfold raise
  split
  · next hm => exact standing_push h (hl hm)
  · exact h

end Shelf

namespace Store

variable {s : Store}

theorem commit_matches (h : s.inner.isOpen = true) :
    ∃ t, s.commit = .ok t ∧ s.Matches t ∧ t.content = s.content := by
  cases s with
  | base c b => exact ⟨base c b, rfl, .refl _, rfl⟩
  | view p s => exact ⟨view p s, rfl, .refl _, rfl⟩
  | overlay w s =>
      obtain ⟨t, ht, halike, hcontent⟩ := commit_open (s := s) h w
      exact ⟨t.overlayOf, ht, .overlay w _ halike.matches, hcontent⟩

theorem discard_alike (s : Store) : s.Alike s.discard := by
  cases s with
  | overlay w s => exact .overlay w _ s
  | _ => exact .refl _

end Store

namespace Shelf

variable {shelf : Shelf} {n m t j : Nat} {s : Store} {w : Pending} {moves : List Move}

theorem after_put (h : Standing shelf.layers) (n : Nat) (k : Bytes) (v : Option Bytes) :
    ∃ s, (shelf.store n).put k v = .ok s ∧ (shelf.store n).Alike s
      ∧ s.content = (shelf.shown n).put k v ∧ shelf.after (.put n k v) = shelf.putBack n s := by
  obtain ⟨s, hput, halike, hcontent⟩ := Store.put_open (h.isOpen n) k v
  refine ⟨s, hput, halike, hcontent, ?_⟩
  have hput' : (shelf.store n).put k v = .ok s := hput
  rw [after, hput']
  rfl

theorem after_commit (h : Standing shelf.layers) (n : Nat) :
    ∃ s, (shelf.store n).commit = .ok s ∧ (shelf.store n).Matches s
      ∧ s.content = shelf.shown n ∧ shelf.after (.commit n) = shelf.putBack n s := by
  obtain ⟨s, hcommit, hmatches, hcontent⟩ := Store.commit_matches (h.inner_isOpen n)
  refine ⟨s, hcommit, hmatches, hcontent, ?_⟩
  have hcommit' : (shelf.store n).commit = .ok s := hcommit
  rw [after, hcommit']
  rfl

theorem next_putBack (shelf : Shelf) (n : Nat) (s : Store) :
    (shelf.putBack n s).next = shelf.next :=
  length_spread shelf.layers n s

theorem store_putBack (h : Standing shelf.layers) (hn : n < shelf.next)
    (hs : (shelf.store n).Matches s) : (shelf.putBack n s).store n = s :=
  (h.spread hs).2 hn

theorem standing_after (h : Standing shelf.layers) (move : Move) :
    Standing (shelf.after move).layers := by
  cases move with
  | memory c => exact standing_push h rfl
  | view name m =>
      simp only [after]
      split
      · exact standing_raise h id
      · exact h
  | overlay m => exact standing_raise h id
  | get n k => exact h
  | put n k v =>
      obtain ⟨s, -, halike, -, hafter⟩ := after_put h n k v
      rw [hafter]
      exact (h.spread halike.matches).1
  | items n => exact h
  | commit n =>
      obtain ⟨s, -, hmatches, -, hafter⟩ := after_commit h n
      rw [hafter]
      exact (h.spread hmatches).1
  | discard n => exact (h.spread (Store.discard_alike _).matches).1

theorem standing_afterAll (h : Standing shelf.layers) (moves : List Move) :
    Standing (shelf.afterAll moves).layers := by
  induction moves generalizing shelf with
  | nil => exact h
  | cons move moves ih => exact ih (standing_after h move)

def stack (shelf : Shelf) (n : Nat) : List Nat := descent shelf.layers n

def layer? (shelf : Shelf) (n : Nat) : Option Layer := find? shelf.layers n

section Overlay

variable (h : Standing shelf.layers) (ht : shelf.layer? t = some (.overlay w m))

include h ht

theorem store_overlay : shelf.store t = .overlay w (shelf.store m) := (h.overlay_eq ht).2.1

theorem after_commit_overlay :
    ∃ s, (shelf.store m).Alike s ∧ s.content = shelf.shown t
      ∧ shelf.after (.commit t) = shelf.putBack t s.overlayOf := by
  obtain ⟨s, hcommit, halike, hcontent⟩ := Store.commit_open (h.isOpen m) w
  refine ⟨s, halike, ?_, ?_⟩
  · rw [hcontent, shown, store_overlay h ht]
    rfl
  · have hcommit' : (shelf.store t).commit = .ok s.overlayOf := by
      rw [store_overlay h ht]
      exact hcommit
    rw [after, hcommit']
    rfl

theorem store_putBack_overlay (hs : (shelf.store m).Matches s) (w' : Pending) :
    (shelf.putBack t (.overlay w' s)).store t = .overlay w' s
      ∧ (shelf.putBack t (.overlay w' s)).store m = s := by
  have hmatches : (shelf.store t).Matches (.overlay w' s) := by
    rw [store_overlay h ht]
    exact .overlay w w' hs
  have hput := store_putBack h (lt_of_find? ht) hmatches
  have hstand : Standing (shelf.putBack t (.overlay w' s)).layers := (h.spread hmatches).1
  obtain ⟨w₁, ht'⟩ := find?_spread_overlay ht t (.overlay w' s)
  have hstore : (shelf.putBack t (.overlay w' s)).store t = _ := store_overlay hstand ht'
  rw [hput] at hstore
  exact ⟨hput, (Store.overlay.inj hstore).2.symm⟩

theorem commit_shown :
    (shelf.after (.commit t)).shown m = shelf.shown t
      ∧ (shelf.after (.commit t)).shown t = shelf.shown t := by
  obtain ⟨s, halike, hcontent, hafter⟩ := after_commit_overlay h ht
  obtain ⟨htop, hbelow⟩ := store_putBack_overlay h ht halike.matches Pending.empty
  rw [hafter, ← hcontent]
  exact ⟨congrArg Store.content hbelow, (congrArg Store.content htop).trans rfl⟩

theorem discard_shown :
    (shelf.after (.discard t)).shown t = shelf.shown m
      ∧ (shelf.after (.discard t)).shown m = shelf.shown m := by
  have hdiscard : (shelf.store t).discard = .overlay Pending.empty (shelf.store m) := by
    rw [store_overlay h ht]
    rfl
  obtain ⟨htop, hbelow⟩ := store_putBack_overlay h ht (.refl _) Pending.empty
  rw [after, hdiscard]
  exact ⟨(congrArg Store.content htop).trans rfl, congrArg Store.content hbelow⟩

end Overlay

theorem put_shown (h : Standing shelf.layers) (hn : n < shelf.next) (k : Bytes)
    (v : Option Bytes) :
    (shelf.after (.put n k v)).shown n = (shelf.shown n).put k v := by
  obtain ⟨s, -, halike, hcontent, hafter⟩ := after_put h n k v
  rw [hafter, ← hcontent]
  exact congrArg Store.content (store_putBack h hn halike.matches)

/-- Whether a move writes through a layer on an overlay, and not into what is below the overlay. -/
def Above (shelf : Shelf) (t : Nat) : Move → Prop
  | .put n _ _ => t ∈ shelf.stack n
  | .commit n => n ≠ t ∧ t ∈ shelf.stack n
  | .discard n => t ∈ shelf.stack n
  | _ => True

def AllAbove (t : Nat) : Shelf → List Move → Prop
  | _, [] => True
  | shelf, move :: later => shelf.Above t move ∧ AllAbove t (shelf.after move) later

structure Kept (shelf shelf' : Shelf) (t m : Nat) : Prop where
  next : shelf.next ≤ shelf'.next
  stack : ∀ j, j < shelf.next → shelf'.stack j = shelf.stack j
  overlay : ∃ w, shelf'.layer? t = some (.overlay w m)
  store : ∀ j, j < shelf.next → t ∉ shelf.stack j → shelf'.store j = shelf.store j

theorem kept_push {layer : Layer} (ht : shelf.layer? t = some (.overlay w m)) :
    Kept shelf (shelf.push layer) t m where
  next := Nat.le_succ _
  stack _ hj := descent_earlier (Nat.ne_of_lt hj)
  overlay := ⟨w, (find?_earlier (Nat.ne_of_lt (lt_of_find? ht))).trans ht⟩
  store _ hj _ := assemble_earlier (Nat.ne_of_lt hj)

theorem kept_self (ht : shelf.layer? t = some (.overlay w m)) : Kept shelf shelf t m where
  next := Nat.le_refl _
  stack _ _ := rfl
  overlay := ⟨w, ht⟩
  store _ _ _ := rfl

theorem kept_raise {layer : Layer} {below : Nat} (ht : shelf.layer? t = some (.overlay w m)) :
    Kept shelf (shelf.raise layer below) t m := by
  unfold raise
  split
  · exact kept_push ht
  · exact kept_self ht

theorem kept_putBack (h : Standing shelf.layers) (ht : shelf.layer? t = some (.overlay w m))
    (hs : (shelf.store n).Alike s) (hn : t ∈ shelf.stack n) :
    Kept shelf (shelf.putBack n s) t m where
  next := Nat.le_of_eq (next_putBack shelf n s).symm
  stack j _ := descent_spread shelf.layers n s j
  overlay := find?_spread_overlay ht n s
  store _ _ hj := assemble_spread_other hs (h.seat_not_mem ht hn hj)

theorem Kept.trans {shelf' shelf'' : Shelf} (h : Kept shelf shelf' t m)
    (g : Kept shelf' shelf'' t m) : Kept shelf shelf'' t m where
  next := Nat.le_trans h.next g.next
  stack j hj := (g.stack j (Nat.lt_of_lt_of_le hj h.next)).trans (h.stack j hj)
  overlay := g.overlay
  store j hj hnot := by
    have hj' := Nat.lt_of_lt_of_le hj h.next
    rw [g.store j hj' (by rwa [h.stack j hj]), h.store j hj hnot]

theorem kept_commit (h : Standing shelf.layers) (ht : shelf.layer? t = some (.overlay w m))
    (hne : n ≠ t) (hn : t ∈ shelf.stack n) : Kept shelf (shelf.after (.commit n)) t m := by
  have hself (hcommit : (shelf.store n).commit = .ok (shelf.store n)) :
      Kept shelf (shelf.after (.commit n)) t m := by
    have hsame : shelf.after (.commit n) = shelf := by
      rw [after, hcommit]
      exact congrArg Shelf.mk (spread_assemble shelf.layers n)
    rw [hsame]
    exact kept_self ht
  cases h.place (lt_of_mem_descent hn) with
  | base c layer store => exact hself (by rw [Shelf.store, store]; rfl)
  | view p m₁ lt layer store => exact hself (by rw [Shelf.store, store]; rfl)
  | overlay w₁ m₁ lt layer store descent =>
      have hbelow : t ∈ shelf.stack m₁ := by
        rw [stack, descent, List.mem_cons] at hn
        exact hn.resolve_left (Ne.symm hne)
      obtain ⟨s, halike, -, hafter⟩ := after_commit_overlay h layer
      -- The writes go below first, and the overlay is emptied then.
      have hsteps : shelf.putBack n s.overlayOf = (shelf.putBack m₁ s).putBack n s.overlayOf :=
        congrArg Shelf.mk (h.spread_overlay layer halike.matches Pending.empty)
      have hstand : Standing (shelf.putBack m₁ s).layers := (h.spread halike.matches).1
      have hdown := kept_putBack h ht halike hbelow
      obtain ⟨w₂, ht'⟩ := hdown.overlay
      obtain ⟨w₃, hlayer⟩ := find?_spread_overlay layer m₁ s
      have hempty : ((shelf.putBack m₁ s).store n).Alike s.overlayOf := by
        rw [store_overlay hstand hlayer,
          store_putBack h (Nat.lt_trans lt (lt_of_find? layer)) halike.matches]
        exact .overlay w₃ _ s
      have hn' : t ∈ (shelf.putBack m₁ s).stack n := by
        rw [stack, putBack, descent_spread]
        exact hn
      rw [hafter, hsteps]
      exact hdown.trans (kept_putBack hstand ht' hempty hn')

theorem kept_after (h : Standing shelf.layers) (ht : shelf.layer? t = some (.overlay w m))
    {move : Move} (habove : shelf.Above t move) : Kept shelf (shelf.after move) t m := by
  cases move with
  | memory c => exact kept_push ht
  | view name below =>
      simp only [after]
      split
      · exact kept_raise ht
      · exact kept_self ht
  | overlay below => exact kept_raise ht
  | get n k => exact kept_self ht
  | put n k v =>
      obtain ⟨s, -, halike, -, hafter⟩ := after_put h n k v
      rw [hafter]
      exact kept_putBack h ht halike habove
  | items n => exact kept_self ht
  | commit n => exact kept_commit h ht habove.1 habove.2
  | discard n => exact kept_putBack h ht (Store.discard_alike _) habove

theorem kept_afterAll (h : Standing shelf.layers) (ht : shelf.layer? t = some (.overlay w m))
    {later : List Move} (habove : AllAbove t shelf later) :
    Kept shelf (shelf.afterAll later) t m := by
  induction later generalizing shelf w with
  | nil => exact kept_self ht
  | cons move later ih =>
      have hfirst := kept_after h ht habove.1
      obtain ⟨w', ht'⟩ := hfirst.overlay
      exact hfirst.trans (ih (standing_after h move) ht' habove.2)

structure MapLike (shelf : Shelf) : Prop where
  get : ∀ n k, (shelf.store n).get k = .ok ((shelf.shown n).get? k)
  items : ∀ n, ∃ listed, (shelf.store n).items = .ok listed
    ∧ listed.Pairwise (fun a b => a.1 < b.1)
    ∧ ∀ k v, (k, v) ∈ listed ↔ (shelf.shown n).get? k = some v
  put : ∀ n k v, n < shelf.next → (∃ s, (shelf.store n).put k v = .ok s)
    ∧ ∀ k', ((shelf.after (.put n k v)).shown n).get? k'
      = if k = k' then v else (shelf.shown n).get? k'
  commit : ∀ t w m, shelf.layer? t = some (.overlay w m) →
    (∃ s, (shelf.store t).commit = .ok s)
    ∧ (shelf.after (.commit t)).shown m = shelf.shown t
    ∧ (shelf.after (.commit t)).shown t = shelf.shown t
  discard : ∀ t w m, shelf.layer? t = some (.overlay w m) →
    (shelf.after (.discard t)).shown t = shelf.shown m
    ∧ (shelf.after (.discard t)).shown m = shelf.shown m
  below : ∀ t j, j ∈ shelf.stack t → j ≠ t → j < shelf.next ∧ t ∉ shelf.stack j
  uncommitted : ∀ t w m later, shelf.layer? t = some (.overlay w m) → AllAbove t shelf later →
    ∀ j, j < shelf.next → t ∉ shelf.stack j → (shelf.afterAll later).shown j = shelf.shown j

theorem afterAll_mapLike (moves : List Move) : MapLike (Shelf.empty.afterAll moves) := by
  have hempty : Standing Shelf.empty.layers := trivial
  have h := standing_afterAll hempty moves
  generalize Shelf.empty.afterAll moves = shelf at h
  refine ⟨fun n k => Store.get_eq_content (h.isOpen n) k, fun n => ?_, fun n k v hn => ?_,
    fun t w m ht => ?_, fun t w m ht => discard_shown h ht, fun t j hj hne => ?_,
    fun t w m later ht habove j hj hnot => ?_⟩
  · refine ⟨(shelf.shown n).entries, if_pos (Store.isReadable_of_isOpen (h.isOpen n)),
      (shelf.shown n).ascending, fun k v => ?_⟩
    exact Content.mem_entries_iff _ k v
  · obtain ⟨s, hput, -⟩ := after_put h n k v
    refine ⟨⟨s, hput⟩, fun k' => ?_⟩
    rw [put_shown h hn, Content.get?_put]
  · obtain ⟨s, hcommit, -⟩ := after_commit h t
    exact ⟨⟨s, hcommit⟩, commit_shown h ht⟩
  · have hle := h.le_of_mem_descent hj
    have hlt : t < shelf.next := lt_of_mem_descent hj
    exact ⟨Nat.lt_of_le_of_lt hle hlt, h.not_mem_descent_below hj hne⟩
  · exact congrArg Store.content ((kept_afterAll h ht habove).store j hj hnot)

example :
    let shelf := Shelf.empty.afterAll [.memory .empty, .view "a" 0, .overlay 1,
      .put 2 [1] (some [7]), .put 1 [1] (some [8]), .put 1 [2] (some [9]), .put 2 [2] none]
    (shelf.shown 1).entries = [([1], [8]), ([2], [9])]
      ∧ (shelf.shown 2).entries = [([1], [7])]
      ∧ ((shelf.after (.commit 2)).shown 0).entries = [([0, 1, 97, 1], [7])] := by
  decide +kernel

end Shelf

end DonationLedger
