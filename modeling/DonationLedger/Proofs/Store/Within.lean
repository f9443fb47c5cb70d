import DonationLedger.Proofs.Store.Taken

namespace DonationLedger

def Content.AgreesOn (keys : Bytes → Prop) (c c' : Content) : Prop :=
  ∀ k, keys k → c'.get? k = c.get? k

theorem Content.AgreesOn.put {keys : Bytes → Prop} {c c' : Content} (h : c.AgreesOn keys c')
    (k : Bytes) (v : Option Bytes) : (c.put k v).AgreesOn keys (c'.put k v) := by
  intro j hj
  rw [Content.get?_put, Content.get?_put, h j hj]

theorem Content.AgreesOn.of_under {keys : Bytes → Prop} {front : Bytes} {c c' d d' : Content}
    (h : c.AgreesOn keys d) (hc : c.AgreesOutside front c') (hd : d.AgreesOutside front d')
    (hu : d'.under front = c'.under front) : c'.AgreesOn keys d' := by
  intro k hk
  cases hr : rest? front k with
  | none => rw [hc k hr, hd k hr, h k hk]
  | some rest => rw [rest?_eq_some_iff.1 hr, ← get?_under, ← get?_under, hu]

structure Page.Matches (keys : Bytes → Prop) (g g' : Page) : Prop where
  trace : g'.trace = g.trace
  content : g.content.AgreesOn keys g'.content

structure Store.Answers (keys : Bytes → Prop) (c : Content) (s : Store) : Prop where
  takesWrites : s.takesWrites = true
  get : ∀ k, keys k → s.get k = .ok (c.get? k)

namespace Program

variable {α β : Type} {keys : Bytes → Prop}

def Within (keys : Bytes → Prop) : Program α → Prop
  | done _ => True
  | read k next => keys k ∧ ∀ r, (next r).Within keys
  | write k _ next => keys k ∧ ∀ r, (next r).Within keys
  | holdings next => ∀ r, (next r).Within keys
  | emit _ next => next.Within keys

theorem Within.bind {p : Program α} {f : α → Program β} (hp : p.Within keys)
    (hf : ∀ a, (f a).Within keys) : (p.bind f).Within keys := by
  induction p with
  | done a => exact hf a
  | read k next ih => exact ⟨hp.1, fun r => ih r (hp.2 r)⟩
  | write k v next ih => exact ⟨hp.1, fun r => ih r (hp.2 r)⟩
  | holdings next ih => exact fun r => ih r (hp r)
  | emit line next ih => exact ih hp

theorem Within.eval {p : Program α} (hp : p.Within keys) (held : Except Fault (List Coin))
    {g g' : Page} (h : g.Matches keys g') :
    (p.eval held g').1 = (p.eval held g).1
      ∧ (p.eval held g).2.Matches keys (p.eval held g').2 := by
  induction p generalizing g g' with
  | done a => exact ⟨rfl, h⟩
  | read k next ih =>
      simp only [Program.eval, h.content k hp.1]
      exact ih _ (hp.2 _) h
  | write k v next ih => exact ih _ (hp.2 _) ⟨h.trace, h.content.put k v⟩
  | holdings next ih => exact ih _ (hp held) h
  | emit line next ih => exact ih hp ⟨congrArg (· ++ [line]) h.trace, h.content⟩

theorem Within.run {p : Program α} (hp : p.Within keys) (held : Except Fault (List Coin))
    {c : Content} {s : Store} (h : s.Answers keys c) (trace : List String) :
    ∃ t, p.run held ⟨s, trace⟩
        = ((p.eval held ⟨c, trace⟩).1, ⟨t, (p.eval held ⟨c, trace⟩).2.trace⟩)
      ∧ t.Answers keys (p.eval held ⟨c, trace⟩).2.content
      ∧ ∀ k, ¬keys k → t.get k = s.get k := by
  induction p generalizing c s trace with
  | done a => exact ⟨s, rfl, h, fun _ _ => rfl⟩
  | read k next ih =>
      simp only [Program.run, Program.eval, h.get k hp.1]
      exact ih _ (hp.2 _) h trace
  | write k v next ih =>
      obtain ⟨t, ht, htakes⟩ := Store.takes_put h.takesWrites k v
      have hwritten : t.Answers keys (c.put k v) := by
        refine ⟨htakes, fun k' hk' => ?_⟩
        rw [Store.get_of_put ht, Content.get?_put]
        split
        · rfl
        · exact h.get k' hk'
      obtain ⟨u, hu, hanswers, hothers⟩ := ih (.ok ()) (hp.2 _) hwritten trace
      simp only [Program.run, Program.eval, ht]
      refine ⟨u, hu, hanswers, fun k' hk' => ?_⟩
      rw [hothers k' hk', Store.get_of_put ht, if_neg]
      rintro rfl
      exact hk' hp.1
  | holdings next ih => exact ih held (hp held) h trace
  | emit line next ih => exact ih hp h _

end Program

namespace Action

variable {α β : Type} {keys : Bytes → Prop}

-- A structure for the same reason as `Avoids`.
structure Within (keys : Bytes → Prop) (a : Action α) : Prop where
  program : a.program.Within keys

theorem within_pure (v : α) : (pure v : Action α).Within keys := ⟨trivial⟩

theorem within_ofExcept (r : Except Fault α) : (ofExcept r).Within keys := ⟨trivial⟩

theorem within_read {k : Bytes} (h : keys k) : (read k).Within keys := ⟨h, fun _ => trivial⟩

theorem within_write {k : Bytes} (h : keys k) (v : Bytes) : (write k v).Within keys :=
  ⟨h, fun _ => trivial⟩

theorem Within.bind {a : Action α} {f : α → Action β} (ha : a.Within keys)
    (hf : ∀ v, (f v).Within keys) : (a >>= f).Within keys := by
  refine ⟨Program.Within.bind ha.program (fun r => ?_)⟩
  cases r with
  | ok v => exact (hf v).program
  | error e => trivial

theorem Within.map {a : Action α} (ha : a.Within keys) (f : α → β) : (f <$> a).Within keys := by
  rw [map_eq_pure_bind]
  exact ha.bind (fun v => within_pure (f v))

end Action

namespace Slot

variable {α : Type} (slot : Slot α) {keys : Bytes → Prop}

theorem within_load? (h : keys slot.bytes) : slot.load?.Within keys := by
  refine (Action.within_read h).bind fun v => ?_
  cases v with
  | none => exact Action.within_pure _
  | some b => exact (Action.within_ofExcept _).map some

theorem within_save (h : keys slot.bytes) (a : α) : (slot.save a).Within keys :=
  (Action.within_ofExcept _).bind fun b => Action.within_write h b

end Slot

end DonationLedger
