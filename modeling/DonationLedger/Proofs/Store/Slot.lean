import DonationLedger.Proofs.Store.Page
import DonationLedger.Slot

namespace DonationLedger

theorem eq_ok_of_toOption {ε α : Type} {x : Except ε α} {a : α} (h : x.toOption = some a) :
    x = .ok a := by
  cases x with
  | ok b => exact congrArg Except.ok (Option.some.inj h)
  | error e => cases h

namespace Action

variable {α β : Type}

def eval (held : Except Fault (List Coin)) (a : Action α) (g : Page) : Except Fault α × Page :=
  a.program.eval held g

variable (held : Except Fault (List Coin)) (g : Page)

@[simp]
theorem eval_pure (v : α) : (pure v : Action α).eval held g = (.ok v, g) := rfl

@[simp]
theorem eval_ofExcept (r : Except Fault α) : (ofExcept r).eval held g = (r, g) := rfl

@[simp]
theorem eval_read (k : Bytes) : (read k).eval held g = (.ok (g.content.get? k), g) := rfl

@[simp]
theorem eval_write (k v : Bytes) :
    (write k v).eval held g = (.ok (), { g with content := g.content.insert k v }) := rfl

@[simp]
theorem eval_holdings : holdings.eval held g = (held, g) := rfl

theorem eval_bind (a : Action α) (f : α → Action β) :
    (a >>= f).eval held g
      = match a.eval held g with
        | (.ok v, g') => (f v).eval held g'
        | (.error e, g') => (.error e, g') := by
  change ((a.program.bind _).eval held g) = _
  rw [Program.eval_bind]
  unfold eval
  cases h : a.program.eval held g with
  | mk r g' =>
      cases r with
      | ok v => rfl
      | error e => rfl

theorem eval_bind_ok {a : Action α} {f : α → Action β} {v : α} {g g' : Page}
    (h : a.eval held g = (.ok v, g')) : (a >>= f).eval held g = (f v).eval held g' := by
  rw [eval_bind, h]

theorem eval_bind_error {a : Action α} {f : α → Action β} {e : Fault} {g g' : Page}
    (h : a.eval held g = (.error e, g')) : (a >>= f).eval held g = (.error e, g') := by
  rw [eval_bind, h]

theorem eval_map (a : Action α) (f : α → β) :
    (f <$> a).eval held g = ((a.eval held g).1.map f, (a.eval held g).2) := by
  rw [map_eq_pure_bind, eval_bind]
  cases a.eval held g with
  | mk r g' => cases r <;> rfl

section Success

variable {held} {g g' g'' : Page}

theorem bind_eval_ok {a : Action α} {f : α → Action β} {b : β}
    (h : (a >>= f).eval held g = (.ok b, g'')) :
    ∃ v g', a.eval held g = (.ok v, g') ∧ (f v).eval held g' = (.ok b, g'') := by
  rw [eval_bind] at h
  cases ha : a.eval held g with
  | mk r g' =>
      rw [ha] at h
      cases r with
      | ok v => exact ⟨v, g', rfl, h⟩
      | error e => cases h

theorem pure_eval_ok {v a : α} (h : (pure v : Action α).eval held g = (.ok a, g')) :
    a = v ∧ g' = g := by
  obtain ⟨hv, rfl⟩ := Prod.mk.inj h
  exact ⟨(Except.ok.inj hv).symm, rfl⟩

theorem ofExcept_eval_ok {x : Except Fault α} {a : α}
    (h : (ofExcept x).eval held g = (.ok a, g')) : x = .ok a ∧ g' = g := by
  obtain ⟨hx, rfl⟩ := Prod.mk.inj h
  exact ⟨hx, rfl⟩

theorem holdings_eval_ok {coins : List Coin} (h : holdings.eval held g = (.ok coins, g')) :
    held = .ok coins ∧ g' = g := by
  obtain ⟨hx, rfl⟩ := Prod.mk.inj h
  exact ⟨hx, rfl⟩

end Success

end Action

namespace Slot

variable {α : Type} (slot : Slot α)

def loaded? (c : Content) : Except Fault (Option α) :=
  match c.get? slot.bytes with
  | none => .ok none
  | some b => (slot.decode b).map some

def loaded (c : Content) : Except Fault α :=
  match c.get? slot.bytes with
  | none => .error slot.notFound
  | some b => slot.decode b

theorem loaded?_congr {c c' : Content} (h : c'.get? slot.bytes = c.get? slot.bytes) :
    slot.loaded? c' = slot.loaded? c := by
  rw [loaded?, loaded?, h]

theorem loaded_congr {c c' : Content} (h : c'.get? slot.bytes = c.get? slot.bytes) :
    slot.loaded c' = slot.loaded c := by
  rw [loaded, loaded, h]

theorem loaded?_of_none {c : Content} (h : c.get? slot.bytes = none) :
    slot.loaded? c = .ok none := by
  rw [loaded?, h]

theorem loaded?_eq_some_iff {c : Content} {a : α} :
    slot.loaded? c = .ok (some a) ↔ slot.loaded c = .ok a := by
  unfold loaded? loaded
  cases c.get? slot.bytes with
  | none => simp
  | some b =>
      simp only
      cases slot.decode b with
      | ok v => simp [Except.map]
      | error f => simp [Except.map]

variable (held : Except Fault (List Coin)) (g : Page)

@[simp]
theorem eval_load? : slot.load?.eval held g = (slot.loaded? g.content, g) := by
  simp only [load?, Action.eval_bind, Action.eval_read, loaded?]
  cases g.content.get? slot.bytes with
  | none => rfl
  | some b => rw [Action.eval_map, Action.eval_ofExcept]

@[simp]
theorem eval_load : slot.load.eval held g = (slot.loaded g.content, g) := by
  simp only [load, Action.eval_bind, Action.eval_read, loaded]
  cases g.content.get? slot.bytes with
  | none => rfl
  | some b => rfl

variable {g} in
theorem eval_load_of_loaded {r : Except Fault α} (h : slot.loaded g.content = r) :
    slot.load.eval held g = (r, g) := by
  rw [eval_load, h]

@[simp]
theorem eval_erase :
    slot.erase.eval held g = (.ok (), { g with content := g.content.erase slot.bytes }) := rfl

theorem eval_saveJson_ok {v : Json} {b : Bytes} (h : slot.encodeJson v = .ok b) :
    (slot.saveJson v).eval held g
      = (.ok (), { g with content := g.content.insert slot.bytes b }) := by
  simp only [saveJson, Action.eval_bind, Action.eval_ofExcept, h, Action.eval_write]

theorem eval_saveJson_error {v : Json} {f : Fault} (h : slot.encodeJson v = .error f) :
    (slot.saveJson v).eval held g = (.error f, g) := by
  simp only [saveJson, Action.eval_bind, Action.eval_ofExcept, h]

theorem eval_save (a : α) :
    (slot.save a).eval held g
      = match slot.encode a with
        | .ok b => (.ok (), { g with content := g.content.insert slot.bytes b })
        | .error f => (.error f, g) := by
  unfold save
  cases h : slot.encode a with
  | ok b => exact slot.eval_saveJson_ok held g h
  | error f => exact slot.eval_saveJson_error held g h

section Success

variable {slot} {held} {g g' : Page}

theorem save_eval_ok {a : α} {u : Unit} (h : (slot.save a).eval held g = (.ok u, g')) :
    ∃ b, slot.encode a = .ok b ∧ g' = { g with content := g.content.insert slot.bytes b } := by
  rw [eval_save] at h
  cases hb : slot.encode a with
  | ok b =>
      rw [hb] at h
      exact ⟨b, rfl, (Prod.mk.inj h).2.symm⟩
  | error f =>
      rw [hb] at h
      cases h

theorem load_eval_ok {a : α} (h : slot.load.eval held g = (.ok a, g')) :
    slot.loaded g.content = .ok a ∧ g' = g := by
  rw [eval_load] at h
  exact ⟨(Prod.mk.inj h).1, (Prod.mk.inj h).2.symm⟩

theorem load?_eval_ok {a : Option α} (h : slot.load?.eval held g = (.ok a, g')) :
    slot.loaded? g.content = .ok a ∧ g' = g := by
  rw [eval_load?] at h
  exact ⟨(Prod.mk.inj h).1, (Prod.mk.inj h).2.symm⟩

end Success

end Slot

end DonationLedger
