import DonationLedger.Proofs.Store.Slot

namespace DonationLedger

theorem Backend.isReadable_of_refusal {b : Backend} {k : Bytes} {v : Option Bytes}
    (h : b.refusal? k v = none) : b.isReadable = true := by
  cases b with
  | closed => cases h
  | _ => rfl

namespace Store

variable {s t : Store}

theorem put_base_ok {c : Content} {b : Backend} {k : Bytes} {v : Option Bytes}
    (h : (base c b).put k v = .ok t) : b.refusal? k v = none ∧ t = base (c.put k v) b := by
  simp only [put] at h
  split at h
  · next hnone => exact ⟨hnone, (Except.ok.inj h).symm⟩
  · cases h

theorem put_view_ok {p k : Bytes} {v : Option Bytes} (h : (view p s).put k v = .ok t) :
    ∃ s', s.put (p ++ k) v = .ok s' ∧ t = view p s' := by
  simp only [put] at h
  cases hs : s.put (p ++ k) v with
  | error f =>
      rw [hs] at h
      cases h
  | ok s' =>
      rw [hs] at h
      exact ⟨s', rfl, (Except.ok.inj h).symm⟩

theorem get_of_put {k : Bytes} {v : Option Bytes} (h : s.put k v = .ok t) (k' : Bytes) :
    t.get k' = if k = k' then .ok v else s.get k' := by
  induction s generalizing t k k' with
  | base c b =>
      obtain ⟨hnone, rfl⟩ := put_base_ok h
      simp only [get, Backend.isReadable_of_refusal hnone, if_true, Content.get?_put]
      exact apply_ite Except.ok (k = k') v (c.get? k')
  | view p s ih =>
      obtain ⟨s', hs, rfl⟩ := put_view_ok h
      simp only [get, ih hs, List.append_cancel_left_eq]
  | overlay w s ih =>
      obtain rfl := Except.ok.inj h
      simp only [get, Pending.get?_put]
      by_cases hk : k = k'
      · rw [if_pos hk, if_pos hk]
      · rw [if_neg hk, if_neg hk]

theorem get_of_putAll {writes : List Pending.Write} (h : s.putAll writes = .ok t)
    (distinct : (writes.map Prod.fst).Nodup) (k : Bytes) :
    t.get k = match Pending.find k writes with
      | some v => .ok v
      | none => s.get k := by
  induction writes generalizing s with
  | nil =>
      obtain rfl := Except.ok.inj h
      rfl
  | cons w rest ih =>
      obtain ⟨k₁, v⟩ := w
      rw [List.map_cons, List.nodup_cons] at distinct
      cases hw : s.put k₁ v with
      | error f =>
          rw [putAll_cons_error hw] at h
          cases h
      | ok s₁ =>
          rw [putAll_cons_ok hw] at h
          rw [ih h distinct.2, get_of_put hw]
          simp only [Pending.find]
          by_cases hk : k₁ = k
          · subst hk
            rw [if_pos rfl, if_pos rfl, Pending.find_eq_none_iff.2 distinct.1]
          · rw [if_neg hk, if_neg hk]

theorem commit_ok {w : Pending} (h : (overlay w s).commit = .ok t) :
    ∃ s', s.putAll w.writes = .ok s' ∧ t = s'.overlayOf := by
  simp only [commit] at h
  cases hs : s.putAll w.writes with
  | error f =>
      rw [hs] at h
      cases h
  | ok s' =>
      rw [hs] at h
      exact ⟨s', rfl, (Except.ok.inj h).symm⟩

theorem get_of_commit {w : Pending} (h : (overlay w s).commit = .ok t) (k : Bytes) :
    t.inner.get k = (overlay w s).get k := by
  obtain ⟨s', hs, rfl⟩ := commit_ok h
  exact get_of_putAll hs w.distinct k

variable {k : Bytes}

/-- Whether writes reach a base that answers reads and may refuse them. -/
def isFaulty : Store → Bool
  | base _ (.faulty _) => true
  | base _ _ => false
  | view _ s => s.isFaulty
  | overlay _ _ => false

def Bars (s : Store) : Prop := ∀ k v, ∃ f, s.put k v = .error f

theorem bars_of_closed (htakes : s.takesWrites = false) (hfaulty : s.isFaulty = false) :
    s.Bars := by
  induction s with
  | base c b =>
      cases b with
      | sound => cases htakes
      | closed => exact fun k v => ⟨_, rfl⟩
      | faulty complaint? => cases hfaulty
  | view p s ih =>
      intro k v
      obtain ⟨f, hf⟩ := ih htakes hfaulty (p ++ k) v
      exact ⟨f, by rw [put, hf]; rfl⟩
  | overlay w s ih => cases htakes

theorem takesWrites_of_get {v : Option Bytes} (hfaulty : s.isFaulty = false)
    (h : s.get k = .ok v) : s.takesWrites = true := by
  induction s generalizing k with
  | base c b =>
      cases b with
      | sound => rfl
      | closed => cases h
      | faulty complaint? => cases hfaulty
  | view p s ih => exact ih hfaulty h
  | overlay w s ih => rfl

theorem takesWrites_of_put {v : Option Bytes} (hfaulty : s.isFaulty = false)
    (h : s.put k v = .ok t) : s.takesWrites = true := by
  cases htakes : s.takesWrites with
  | true => rfl
  | false =>
      obtain ⟨f, hf⟩ := bars_of_closed htakes hfaulty k v
      cases hf.symm.trans h

def Refuses (f : Fault) : Prop := ∃ access k text, f = refused access k text

theorem Refuses.isRefusal {f : Fault} (h : Refuses f) : f.isRefusal = true := by
  obtain ⟨access, k, text, rfl⟩ := h
  rfl

theorem Refuses.kind {f : Fault} (h : Refuses f) : f.kind = "storage_fault" := by
  obtain ⟨access, k, text, rfl⟩ := h
  rfl

theorem refuses_of_get {f : Fault} (h : s.get k = .error f) : Refuses f := by
  induction s generalizing k with
  | base c b =>
      simp only [get] at h
      split at h
      · cases h
      · exact ⟨_, _, _, (Except.error.inj h).symm⟩
  | view p s ih => exact ih h
  | overlay w s ih =>
      simp only [get] at h
      split at h
      · cases h
      · exact ih h

theorem refuses_of_put {v : Option Bytes} {f : Fault} (h : s.put k v = .error f) : Refuses f := by
  induction s generalizing k with
  | base c b =>
      simp only [put] at h
      split at h
      · cases h
      · exact ⟨_, _, _, (Except.error.inj h).symm⟩
  | view p s ih =>
      simp only [put] at h
      cases hs : s.put (p ++ k) v with
      | error f' =>
          rw [hs] at h
          obtain rfl := Except.error.inj h
          exact ih hs
      | ok s' =>
          rw [hs] at h
          cases h
  | overlay w s ih => cases h

theorem takes_put (h : s.takesWrites = true) (k : Bytes) (v : Option Bytes) :
    ∃ t, s.put k v = .ok t ∧ t.takesWrites = true := by
  induction s generalizing k with
  | base c b =>
      cases b with
      | sound => exact ⟨_, rfl, rfl⟩
      | closed => cases h
      | faulty complaint? => cases h
  | view p s ih =>
      obtain ⟨t, ht, htakes⟩ := ih h (p ++ k)
      exact ⟨view p t, by rw [put, ht]; rfl, htakes⟩
  | overlay w s ih => exact ⟨_, rfl, rfl⟩

theorem takes_putAll (h : s.takesWrites = true) (writes : List Pending.Write) :
    ∃ t, s.putAll writes = .ok t := by
  induction writes generalizing s with
  | nil => exact ⟨s, rfl⟩
  | cons w rest ih =>
      obtain ⟨s', hput, htakes⟩ := takes_put h w.1 w.2
      obtain ⟨t, ht⟩ := ih htakes
      exact ⟨t, (putAll_cons_ok hput).trans ht⟩

theorem takes_commit (h : s.takesWrites = true) (w : Pending) :
    ∃ t, (overlay w s).commit = .ok t := by
  obtain ⟨t, ht⟩ := takes_putAll h w.writes
  exact ⟨t.overlayOf, by rw [commit, ht]; rfl⟩

theorem refuses_of_putAll {writes : List Pending.Write} {f : Fault}
    (h : s.putAll writes = .error f) : Refuses f := by
  induction writes generalizing s with
  | nil => cases h
  | cons w rest ih =>
      cases hw : s.put w.1 w.2 with
      | error f' =>
          rw [putAll_cons_error hw] at h
          obtain rfl := Except.error.inj h
          exact refuses_of_put hw
      | ok s' =>
          rw [putAll_cons_ok hw] at h
          exact ih h

theorem refuses_of_commit {f : Fault} (h : s.commit = .error f) : Refuses f := by
  cases s with
  | overlay w s =>
      simp only [commit] at h
      cases hs : s.putAll w.writes with
      | error f' =>
          rw [hs] at h
          obtain rfl := Except.error.inj h
          exact refuses_of_putAll hs
      | ok t =>
          rw [hs] at h
          cases h
  | _ => cases h

theorem Bars.landed (h : s.Bars) (writes : List Pending.Write) : s.landed writes = s := by
  cases writes with
  | nil => rfl
  | cons w rest =>
      obtain ⟨f, hf⟩ := h w.1 w.2
      rw [Store.landed, hf]

theorem Bars.commit (h : s.Bars) {w : Pending} (hw : w.writes ≠ []) :
    ∃ f, (overlay w s).commit = .error f := by
  obtain ⟨x, rest, hwrites⟩ := List.exists_cons_of_ne_nil hw
  obtain ⟨f, hf⟩ := h x.1 x.2
  exact ⟨f, by rw [Store.commit, hwrites, putAll_cons_error hf]; rfl⟩

end Store

variable {α : Type} {held : Except Fault (List Coin)}

theorem Program.run_stays_overlay (held : Except Fault (List Coin)) (p : Program α) (w : Pending)
    (s : Store) (trace : List String) :
    ∃ w', (p.run held ⟨.overlay w s, trace⟩).2.store = .overlay w' s := by
  induction p generalizing w trace with
  | done a => exact ⟨w, rfl⟩
  | read k next ih => exact ih _ w trace
  | write k v next ih => exact ih _ (w.put k v) trace
  | holdings next ih => exact ih held w trace
  | emit line next ih => exact ih w _

theorem Program.run_map {β : Type} (held : Except Fault (List Coin)) (p : Program α) (f : α → β)
    (s : Session) : (f <$> p).run held s = (f (p.run held s).1, (p.run held s).2) :=
  run_bind held p (fun a => done (f a)) s

theorem Action.run_bind {β : Type} (held : Except Fault (List Coin)) (a : Action α)
    (f : α → Action β) (s : Session) :
    (a >>= f).run held s
      = match a.run held s with
        | (.ok v, s') => (f v).run held s'
        | (.error e, s') => (.error e, s') := by
  change ((a.program.bind _).run held s) = _
  rw [Program.run_bind]
  unfold run
  cases a.program.run held s with
  | mk r s' =>
      cases r with
      | ok v => rfl
      | error e => rfl

theorem Action.run_map {β : Type} (held : Except Fault (List Coin)) (a : Action α) (f : α → β)
    (s : Session) : (f <$> a).run held s = ((a.run held s).1.map f, (a.run held s).2) := by
  rw [map_eq_pure_bind, run_bind]
  cases a.run held s with
  | mk r s' => cases r <;> rfl

theorem Action.bind_run_of_ok {β : Type} {a : Action α} {f : α → Action β} {v : α}
    {s s' : Session} (h : a.run held s = (.ok v, s')) :
    (a >>= f).run held s = (f v).run held s' := by
  rw [run_bind, h]

theorem Action.bind_run_of_error {β : Type} {a : Action α} {f : α → Action β} {e : Fault}
    {s s' : Session} (h : a.run held s = (.error e, s')) :
    (a >>= f).run held s = (.error e, s') := by
  rw [run_bind, h]

theorem Action.bind_run_ok {β : Type} {a : Action α} {f : α → Action β} {b : β} {s s'' : Session}
    (h : (a >>= f).run held s = (.ok b, s'')) :
    ∃ v s', a.run held s = (.ok v, s') ∧ (f v).run held s' = (.ok b, s'') := by
  rw [run_bind] at h
  cases ha : a.run held s with
  | mk x s' =>
      rw [ha] at h
      cases x with
      | ok v => exact ⟨v, s', rfl, h⟩
      | error e => cases h

namespace Slot

variable (slot : Slot α)

def found : Except Fault (Option Bytes) → Except Fault α
  | .error f => .error f
  | .ok none => .error slot.notFound
  | .ok (some b) => slot.decode b

theorem load_run (held : Except Fault (List Coin)) (s : Session) :
    slot.load.run held s = (slot.found (s.store.get slot.bytes), s) := by
  have hread : (Action.read slot.bytes).run held s = (s.store.get slot.bytes, s) := rfl
  rw [load, Action.run_bind, hread]
  cases s.store.get slot.bytes with
  | error f => rfl
  | ok b => cases b <;> rfl

def found? : Except Fault (Option Bytes) → Except Fault (Option α)
  | .error f => .error f
  | .ok none => .ok none
  | .ok (some b) => (slot.decode b).map some

theorem load?_run (held : Except Fault (List Coin)) (s : Session) :
    slot.load?.run held s = (slot.found? (s.store.get slot.bytes), s) := by
  have hread : (Action.read slot.bytes).run held s = (s.store.get slot.bytes, s) := rfl
  rw [load?, Action.run_bind, hread]
  cases s.store.get slot.bytes with
  | error f => rfl
  | ok b =>
      cases b with
      | none => rfl
      | some b => exact Action.run_map held (Action.ofExcept (slot.decode b)) some s

theorem saveJson_run (held : Except Fault (List Coin)) (v : Json) (s : Session) :
    (slot.saveJson v).run held s
      = match slot.encodeJson v with
        | .error f => (.error f, s)
        | .ok b =>
            match s.store.put slot.bytes (some b) with
            | .ok store => (.ok (), { s with store })
            | .error f => (.error f, s) := by
  have hencode : (Action.ofExcept (slot.encodeJson v)).run held s = (slot.encodeJson v, s) := rfl
  rw [saveJson, Action.run_bind, hencode]
  cases slot.encodeJson v with
  | error f => rfl
  | ok b =>
      have hwrite : (Action.write slot.bytes b).run held s
          = Program.run held (.write slot.bytes (some b) .done) s := rfl
      dsimp only
      rw [hwrite, Program.run]
      cases s.store.put slot.bytes (some b) <;> rfl

variable {slot}

theorem saveJson_run_ok {v : Json} {u : Unit} {s s' : Session}
    (h : (slot.saveJson v).run held s = (.ok u, s')) :
    ∃ b, slot.encodeJson v = .ok b ∧ s.store.put slot.bytes (some b) = .ok s'.store := by
  rw [saveJson_run] at h
  cases hb : slot.encodeJson v with
  | error f =>
      rw [hb] at h
      cases h
  | ok b =>
      rw [hb] at h
      cases hput : s.store.put slot.bytes (some b) with
      | error f =>
          simp only [hput] at h
          cases h
      | ok store =>
          simp only [hput] at h
          cases h
          exact ⟨b, rfl, hput⟩

theorem save_run_ok {a : α} {u : Unit} {s s' : Session}
    (h : (slot.save a).run held s = (.ok u, s')) :
    ∃ b, slot.encode a = .ok b ∧ s'.store.get slot.bytes = .ok (some b) := by
  obtain ⟨b, hb, hput⟩ := saveJson_run_ok h
  exact ⟨b, hb, by rw [Store.get_of_put hput, if_pos rfl]⟩

end Slot

end DonationLedger
