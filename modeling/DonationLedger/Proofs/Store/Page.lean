import DonationLedger.Program.Basic

namespace DonationLedger

theorem Pending.apply_put (w : Pending) (c : Content) (k : Bytes) (v : Option Bytes) :
    (w.put k v).apply c = (w.apply c).put k v := by
  apply Content.ext_get?
  intro k'
  rw [Pending.get?_apply, Pending.get?_put, Content.get?_put, Pending.get?_apply]
  split <;> rfl

namespace Content

theorem rest?_append (p k : Bytes) : rest? p (p ++ k) = some k := rest?_eq_some_iff.2 rfl

theorem rest?_eq_none_iff {p k : Bytes} : rest? p k = none ↔ ∀ r, k ≠ p ++ r := by
  rw [Option.eq_none_iff_forall_ne_some]
  exact forall_congr' (fun r => not_congr rest?_eq_some_iff)

def AgreesOutside (p : Bytes) (c c' : Content) : Prop :=
  ∀ k, rest? p k = none → c'.get? k = c.get? k

theorem AgreesOutside.refl (p : Bytes) (c : Content) : AgreesOutside p c c := fun _ _ => rfl

theorem AgreesOutside.trans {p : Bytes} {a b c : Content} (h : AgreesOutside p a b)
    (g : AgreesOutside p b c) : AgreesOutside p a c :=
  fun k hk => (g k hk).trans (h k hk)

theorem AgreesOutside.put (p k : Bytes) (v : Option Bytes) (c : Content) :
    AgreesOutside p c (c.put (p ++ k) v) := by
  intro k' hk'
  rw [get?_put, if_neg]
  intro hk
  rw [← hk, rest?_append] at hk'
  cases hk'

theorem under_put (p k : Bytes) (v : Option Bytes) (c : Content) :
    (c.put (p ++ k) v).under p = (c.under p).put k v := by
  apply ext_get?
  intro k'
  simp only [get?_under, get?_put, List.append_cancel_left_eq]

theorem eq_of_under {p : Bytes} {a b c : Content} (ha : AgreesOutside p c a)
    (hb : AgreesOutside p c b) (h : a.under p = b.under p) : a = b := by
  apply ext_get?
  intro k
  cases hk : rest? p k with
  | none => rw [ha k hk, hb k hk]
  | some r =>
      rw [rest?_eq_some_iff.1 hk, ← get?_under, ← get?_under, h]

end Content

namespace Store

/-- Stores that differ in nothing but the data of their uppermost base or overlay, and below a view
only in what it shows. -/
inductive Alike : Store → Store → Prop where
  | base (c c' : Content) (b : Backend) : Alike (base c b) (base c' b)
  | view {p : Bytes} {s t : Store} (h : Alike s t)
      (g : Content.AgreesOutside p s.content t.content) : Alike (view p s) (view p t)
  | overlay (w w' : Pending) (s : Store) : Alike (overlay w s) (overlay w' s)

namespace Alike

theorem refl (s : Store) : Alike s s := by
  induction s with
  | base c b => exact .base c c b
  | view p s ih => exact .view ih (.refl p _)
  | overlay w s ih => exact .overlay w w s

theorem trans {r s t : Store} (h : Alike r s) (g : Alike s t) : Alike r t := by
  induction h generalizing t with
  | base c c' b => cases g with | base _ d _ => exact .base c d b
  | view h ho ih => cases g with | view g go => exact .view (ih g) (ho.trans go)
  | overlay w w' s => cases g with | overlay _ v _ => exact .overlay w v s

theorem isOpen {s t : Store} (h : Alike s t) : t.isOpen = s.isOpen := by
  induction h with
  | base c c' b => rfl
  | view h ho ih => exact ih
  | overlay w w' s => rfl

theorem of_overlay {w : Pending} {s t : Store} (h : Alike (Store.overlay w s) t) :
    ∃ w', t = Store.overlay w' s := by
  cases h with | overlay _ w' _ => exact ⟨w', rfl⟩

theorem of_view {p : Bytes} {s t : Store} (h : Alike (Store.view p s) t) :
    ∃ s', t = Store.view p s' ∧ Alike s s' ∧ Content.AgreesOutside p s.content s'.content := by
  cases h with | view h g => exact ⟨_, rfl, h, g⟩

theorem of_memory {c : Content} {t : Store} (h : Alike (memory c) t) : t = memory t.content := by
  cases h with | base _ c' _ => rfl

end Alike

theorem put_open {s : Store} (h : s.isOpen = true) (k : Bytes) (v : Option Bytes) :
    ∃ t, s.put k v = .ok t ∧ Alike s t ∧ t.content = s.content.put k v := by
  induction s generalizing k with
  | base c b =>
      cases b with
      | sound => exact ⟨base (c.put k v) .sound, rfl, .base c _ .sound, rfl⟩
      | closed => cases h
      | faulty complaint? => cases h
  | view p s ih =>
      obtain ⟨t, ht, ha, hc⟩ := ih h (p ++ k)
      refine ⟨view p t, by simp [put, ht, Except.map], .view ha ?_, ?_⟩
      · rw [hc]
        exact .put p k v s.content
      · rw [content, hc]
        exact Content.under_put p k v s.content
  | overlay w s ih =>
      exact ⟨overlay (w.put k v) s, rfl, .overlay w _ s, Pending.apply_put w _ k v⟩

theorem putAll_cons_ok {s t : Store} {w : Pending.Write} {rest : List Pending.Write}
    (h : s.put w.1 w.2 = .ok t) : s.putAll (w :: rest) = t.putAll rest := by
  rw [putAll, List.foldlM_cons, h]
  rfl

theorem putAll_cons_error {s : Store} {w : Pending.Write} {rest : List Pending.Write} {f : Fault}
    (h : s.put w.1 w.2 = .error f) : s.putAll (w :: rest) = .error f := by
  rw [putAll, List.foldlM_cons, h]
  rfl

theorem putAll_open {s : Store} (h : s.isOpen = true) (writes : List Pending.Write) :
    ∃ t, s.putAll writes = .ok t ∧ Alike s t
      ∧ t.content = writes.foldl (fun c w => c.put w.1 w.2) s.content := by
  induction writes generalizing s with
  | nil => exact ⟨s, rfl, Alike.refl s, rfl⟩
  | cons w writes ih =>
      obtain ⟨t, ht, ha, hc⟩ := put_open h w.1 w.2
      obtain ⟨u, hu, hb, hd⟩ := ih (ha.isOpen.trans h)
      exact ⟨u, (putAll_cons_ok ht).trans hu, ha.trans hb, by rw [hd, hc, List.foldl_cons]⟩

theorem commit_open {s : Store} (h : s.isOpen = true) (w : Pending) :
    ∃ t, (overlay w s).commit = .ok t.overlayOf ∧ Alike s t ∧ t.content = w.apply s.content := by
  obtain ⟨t, ht, ha, hc⟩ := putAll_open h w.writes
  exact ⟨t, by simp [commit, ht, Except.map], ha, hc⟩

end Store

structure Page where
  content : Content
  trace : List String

namespace Program

variable {α β : Type}

def eval (held : Except Fault (List Coin)) : Program α → Page → α × Page
  | done a, g => (a, g)
  | read k next, g => (next (.ok (g.content.get? k))).eval held g
  | write k v next, g => (next (.ok ())).eval held { g with content := g.content.put k v }
  | holdings next, g => (next held).eval held g
  | emit line next, g => next.eval held { g with trace := g.trace ++ [line] }

theorem eval_bind (held : Except Fault (List Coin)) (p : Program α) (f : α → Program β)
    (g : Page) :
    (p.bind f).eval held g = (f (p.eval held g).1).eval held (p.eval held g).2 := by
  induction p generalizing g with
  | done a => rfl
  | read k next ih => exact ih _ _
  | write k v next ih => exact ih _ _
  | holdings next ih => exact ih _ _
  | emit line next ih => exact ih _

theorem eval_map (held : Except Fault (List Coin)) (p : Program α) (f : α → β) (g : Page) :
    (f <$> p).eval held g = (f (p.eval held g).1, (p.eval held g).2) :=
  eval_bind held p (fun a => done (f a)) g

theorem run_open (held : Except Fault (List Coin)) (p : Program α) {s : Store}
    (h : s.isOpen = true) (trace : List String) :
    ∃ t, p.run held ⟨s, trace⟩
        = ((p.eval held ⟨s.content, trace⟩).1, ⟨t, (p.eval held ⟨s.content, trace⟩).2.trace⟩)
      ∧ s.Alike t ∧ t.content = (p.eval held ⟨s.content, trace⟩).2.content := by
  induction p generalizing s trace with
  | done a => exact ⟨s, rfl, Store.Alike.refl s, rfl⟩
  | read k next ih =>
      simp only [run, eval, Store.get_eq_content h]
      exact ih _ h trace
  | write k v next ih =>
      obtain ⟨t, ht, ha, hc⟩ := Store.put_open h k v
      simp only [run, eval, ht]
      obtain ⟨u, hu, hb, hd⟩ := ih (.ok ()) (ha.isOpen.trans h) trace
      rw [hc] at hu hd
      exact ⟨u, hu, ha.trans hb, hd⟩
  | holdings next ih => exact ih held h trace
  | emit line next ih => exact ih h _

theorem run_memory (held : Except Fault (List Coin)) (p : Program α) (c : Content)
    (trace : List String) :
    p.run held ⟨Store.memory c, trace⟩
      = ((p.eval held ⟨c, trace⟩).1,
        ⟨Store.memory (p.eval held ⟨c, trace⟩).2.content, (p.eval held ⟨c, trace⟩).2.trace⟩) := by
  obtain ⟨t, ht, ha, hc⟩ := run_open held p (s := Store.memory c) rfl trace
  rw [ht, ha.of_memory, hc]
  rfl

theorem run_overlay (held : Except Fault (List Coin)) (p : Program α) {s : Store}
    (h : s.isOpen = true) (w : Pending) (trace : List String) :
    ∃ w', p.run held ⟨Store.overlay w s, trace⟩
        = ((p.eval held ⟨w.apply s.content, trace⟩).1,
          ⟨Store.overlay w' s, (p.eval held ⟨w.apply s.content, trace⟩).2.trace⟩)
      ∧ w'.apply s.content = (p.eval held ⟨w.apply s.content, trace⟩).2.content := by
  have hopen : (Store.overlay w s).isOpen = true := Store.isOpen_overlay h w
  obtain ⟨t, ht, ha, hc⟩ := run_open held p hopen trace
  obtain ⟨w', rfl⟩ := ha.of_overlay
  exact ⟨w', ht, hc⟩

end Program

end DonationLedger
