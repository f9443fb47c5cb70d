import DonationLedger.Proofs.Store.Slot

namespace DonationLedger

theorem Content.put_comm (c : Content) {k k' : Bytes} (h : k ≠ k') (v v' : Option Bytes) :
    (c.put k v).put k' v' = (c.put k' v').put k v := by
  apply Content.ext_get?
  intro j
  simp only [Content.get?_put]
  by_cases hj : k = j
  · subst hj
    rw [if_neg (Ne.symm h), if_pos rfl, if_pos rfl]
  · rw [if_neg hj, if_neg hj]

theorem Content.put_put (c : Content) (k : Bytes) (v v' : Option Bytes) :
    (c.put k v).put k v' = c.put k v' := by
  apply Content.ext_get?
  intro j
  simp only [Content.get?_put]
  split <;> rfl

theorem Content.put_get? (c : Content) (k : Bytes) : c.put k (c.get? k) = c := by
  apply Content.ext_get?
  intro j
  rw [Content.get?_put]
  split
  · next h => rw [h]
  · rfl

namespace Program

variable {α β : Type} {held : Except Fault (List Coin)} {key : Bytes}

def Avoids (held : Except Fault (List Coin)) (key : Bytes) : Program α → Page → Prop
  | done _, _ => True
  | read k next, g => k ≠ key ∧ (next (.ok (g.content.get? k))).Avoids held key g
  | write k v next, g =>
      k ≠ key ∧ (next (.ok ())).Avoids held key { g with content := g.content.put k v }
  | holdings next, g => (next held).Avoids held key g
  | emit line next, g => next.Avoids held key { g with trace := g.trace ++ [line] }

theorem Avoids.bind {p : Program α} {f : α → Program β} {g : Page} (hp : p.Avoids held key g)
    (hf : (f (p.eval held g).1).Avoids held key (p.eval held g).2) :
    (p.bind f).Avoids held key g := by
  induction p generalizing g with
  | done a => exact hf
  | read k next ih => exact ⟨hp.1, ih _ hp.2 hf⟩
  | write k v next ih => exact ⟨hp.1, ih _ hp.2 hf⟩
  | holdings next ih => exact ih _ hp hf
  | emit line next ih => exact ih hp hf

theorem Avoids.eval_put {p : Program α} {c : Content} {trace : List String}
    (h : p.Avoids held key ⟨c, trace⟩) (v : Option Bytes) (trace' : List String) :
    (p.eval held ⟨c.put key v, trace'⟩).1 = (p.eval held ⟨c, trace⟩).1
      ∧ (p.eval held ⟨c.put key v, trace'⟩).2.content
        = (p.eval held ⟨c, trace⟩).2.content.put key v := by
  induction p generalizing c trace trace' with
  | done a => exact ⟨rfl, rfl⟩
  | read k next ih =>
      have hread : (c.put key v).get? k = c.get? k := by rw [Content.get?_put, if_neg (Ne.symm h.1)]
      simp only [eval, hread]
      exact ih _ h.2 trace'
  | write k w next ih =>
      simp only [eval, c.put_comm (Ne.symm h.1)]
      exact ih _ h.2 trace'
  | holdings next ih => exact ih _ h trace'
  | emit line next ih => exact ih h _

end Program

namespace Action

variable {α β : Type} {held : Except Fault (List Coin)} {key : Bytes} {g : Page}

-- A structure, so that no unifier runs the action to see what avoiding a key comes to.
structure Avoids (held : Except Fault (List Coin)) (key : Bytes) (a : Action α) (g : Page) :
    Prop where
  program : a.program.Avoids held key g

theorem avoids_pure (v : α) : (pure v : Action α).Avoids held key g := ⟨trivial⟩

theorem avoids_fail (f : Fault) : (fail f : Action α).Avoids held key g := ⟨trivial⟩

theorem avoids_ofExcept (r : Except Fault α) : (ofExcept r).Avoids held key g := ⟨trivial⟩

theorem avoids_read {k : Bytes} (h : k ≠ key) : (read k).Avoids held key g := ⟨h, trivial⟩

theorem avoids_write {k : Bytes} (h : k ≠ key) (v : Bytes) : (write k v).Avoids held key g :=
  ⟨h, trivial⟩

theorem Avoids.bind {a : Action α} {f : α → Action β} (ha : a.Avoids held key g)
    (hf : ∀ v g', (f v).Avoids held key g') : (a >>= f).Avoids held key g := by
  refine ⟨Program.Avoids.bind ha.program ?_⟩
  generalize Program.eval held a g = x
  obtain ⟨r, g'⟩ := x
  cases r with
  | ok v => exact (hf v g').program
  | error e => trivial

theorem Avoids.eval_put {a : Action α} {r : Except Fault α} {g' : Page}
    (h : a.Avoids held key g) (he : a.eval held g = (r, g')) (v : Option Bytes)
    (trace : List String) :
    ∃ g'', a.eval held ⟨g.content.put key v, trace⟩ = (r, g'')
      ∧ g''.content = g'.content.put key v := by
  obtain ⟨hanswer, hcontent⟩ := Program.Avoids.eval_put h.program v trace
  unfold eval at he
  rw [he] at hanswer hcontent
  exact ⟨(a.eval held ⟨g.content.put key v, trace⟩).2, Prod.ext hanswer rfl, hcontent⟩

end Action

namespace Slot

variable {α : Type} (slot : Slot α) {held : Except Fault (List Coin)} {key : Bytes} {g : Page}

theorem avoids_load (h : slot.bytes ≠ key) : slot.load.Avoids held key g := by
  refine (Action.avoids_read h).bind fun v g' => ?_
  cases v with
  | none => exact Action.avoids_fail _
  | some b => exact Action.avoids_ofExcept _

theorem avoids_save (h : slot.bytes ≠ key) (a : α) : (slot.save a).Avoids held key g :=
  (Action.avoids_ofExcept _).bind fun b _ => Action.avoids_write h b

theorem avoids_erase (h : slot.bytes ≠ key) : slot.erase.Avoids held key g := ⟨h, trivial⟩

end Slot

end DonationLedger
