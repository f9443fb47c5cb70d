import DonationLedger.Proofs.Shape.Declared

namespace DonationLedger

namespace Shape

inductive Declared : Bool → {α : Type} → Shape α → Prop where
  | int : Declared false int
  | text : Declared false text
  | coin : Declared false Coin.shape
  | state : Declared false State.shape
  | plainState : Declared false PlainState.shape
  | forwarding : Declared false Forwarding.shape
  | tag : Declared false VersionTag.shape
  | record : Declared false Host.Record.shape
  | list {optional : Bool} {α : Type} {shape : Shape α} (h : Declared optional shape) :
      Declared false (list shape)
  | nullable {α : Type} {shape : Shape α} (h : Declared false shape) :
      Declared true (nullable shape)

variable {α : Type} {shape : Shape α} {optional : Bool}

theorem Declared.isNull (h : Declared false shape) (a : α) : (shape.write a).isNull = false := by
  cases h <;> rfl

theorem Declared.lawful (h : Declared optional shape) : shape.Lawful := by
  induction h with
  | int => exact int_lawful
  | text => exact text_lawful
  | coin => exact Coin.shape_lawful
  | state => exact State.shape_lawful
  | plainState => exact PlainState.shape_lawful
  | forwarding => exact Forwarding.shape_lawful
  | tag => exact VersionTag.shape_lawful
  | record => exact Host.Record.shape_lawful
  | list h ih => exact ih.list
  | nullable h ih => exact ih.nullable h.isNull

end Shape

namespace Slot

variable {α : Type} (slot : Slot α) (held : Except Fault (List Coin)) (s : Session)

/-- What the load of an entry makes of what the slot holds. -/
def masked : Except Fault α → Except Fault α
  | .ok a => if (slot.shape.write a).isNull then .error slot.notFound else .ok a
  | .error f => .error f

theorem loadEntry_run : slot.loadEntry.run held s = (slot.masked (slot.load.run held s).1, s) := by
  rw [loadEntry, Action.run_bind, load?_run, load_run]
  cases s.store.get slot.bytes with
  | error f => rfl
  | ok v =>
      cases v with
      | none => rfl
      | some b =>
          dsimp only [found?, found]
          cases slot.decode b with
          | error f => rfl
          | ok a =>
              simp only [Except.map, present?, Option.filter, masked]
              by_cases hn : (slot.shape.write a).isNull = true <;> simp only [hn] <;> rfl

theorem decode_ne_notFound (b : Bytes) : slot.decode b ≠ .error slot.notFound := by
  unfold decode
  split <;> simp [corrupt, notFound]

theorem load_notFound_iff : (slot.load.run held s).1 = .error slot.notFound
    ↔ s.store.get slot.bytes = .ok none := by
  rw [load_run]
  cases hget : s.store.get slot.bytes with
  | error f =>
      obtain ⟨access, k, text, rfl⟩ := Store.refuses_of_get hget
      simp [found, notFound, Store.refused]
  | ok v =>
      cases v with
      | none => exact ⟨fun _ => rfl, fun _ => rfl⟩
      | some b => exact ⟨fun h => absurd h (slot.decode_ne_notFound b), fun h => by cases h⟩

theorem loadEntry_notFound_iff : (slot.loadEntry.run held s).1 = .error slot.notFound
    ↔ s.store.get slot.bytes = .ok none
      ∨ ∃ a, (slot.load.run held s).1 = .ok a ∧ (slot.shape.write a).isNull = true := by
  rw [loadEntry_run, ← slot.load_notFound_iff held s]
  cases (slot.load.run held s).1 with
  | error f => simp [masked]
  | ok a => simp [masked]

inductive Use (α : Type) where
  | save (a : α)
  | load
  | load?
  | erase

inductive Answer (α : Type) where
  | done
  | value (a : α)
  | value? (a : Option α)

def use (load : Action α) : Use α → Action (Answer α)
  | .save a => (fun _ => .done) <$> slot.save a
  | .load => .value <$> load
  | .load? => .value? <$> slot.load?
  | .erase => (fun _ => .done) <$> slot.erase

def useAll (load : Action α) : List (Use α) → Session → List (Except Fault (Answer α)) × Session
  | [], s => ([], s)
  | u :: us, s =>
      let (r, s) := (slot.use load u).run held s
      let (rs, s) := useAll load us s
      (r :: rs, s)

def maskedAnswer : Except Fault (Answer α) → Except Fault (Answer α)
  | .ok (.value a) => (slot.masked (.ok a)).map .value
  | r => r

theorem use_entry (u : Use α) : (slot.use slot.loadEntry u).run held s
    = (slot.maskedAnswer ((slot.use slot.load u).run held s).1,
      ((slot.use slot.load u).run held s).2) := by
  cases u with
  | load =>
      simp only [use, Action.run_map, loadEntry_run, load_run]
      cases slot.found (s.store.get slot.bytes) <;> rfl
  | save a =>
      simp only [use, Action.run_map]
      cases ((slot.save a).run held s).1 <;> rfl
  | load? =>
      simp only [use, Action.run_map]
      cases (slot.load?.run held s).1 <;> rfl
  | erase =>
      simp only [use, Action.run_map]
      cases (slot.erase.run held s).1 <;> rfl

theorem useAll_entry (us : List (Use α)) : slot.useAll held slot.loadEntry us s
    = ((slot.useAll held slot.load us s).1.map slot.maskedAnswer,
      (slot.useAll held slot.load us s).2) := by
  induction us generalizing s with
  | nil => rfl
  | cons u us ih => simp only [useAll, use_entry, ih, List.map_cons]

variable {slot}

theorem maskedAnswer_eq (h : ∀ a, (slot.shape.write a).isNull = false)
    (r : Except Fault (Answer α)) : slot.maskedAnswer r = r := by
  rcases r with f | (_ | a | a)
  · rfl
  · rfl
  · simp [maskedAnswer, masked, h a, Except.map]
  · rfl

variable {held s}

theorem load_of_save (h : slot.shape.Lawful) {a : α} {s' : Session}
    (hs : (slot.save a).run held s = (.ok (), s')) : slot.load.run held s' = (.ok a, s') := by
  obtain ⟨b, hb, hget⟩ := save_run_ok hs
  rw [load_run, hget]
  exact congrArg (·, s') (decode_of_encode h hb)

end Slot

open Slot (Use)

theorem entry_used_as_slot {α : Type} {shape : Shape α} {optional : Bool}
    (h : shape.Declared optional) (space key : String) (held : Except Fault (List Coin))
    (s : Session) :
    let slot : Slot α := ⟨space ++ "/" ++ key, shape⟩
    let entry := Slot.under space key shape
    (∀ us : List (Use α), entry.useAll held entry.loadEntry us s
        = ((slot.useAll held slot.load us s).1.map slot.maskedAnswer,
          (slot.useAll held slot.load us s).2))
      ∧ (optional = false → ∀ us : List (Use α),
        entry.useAll held entry.loadEntry us s = slot.useAll held slot.load us s)
      ∧ (∀ a s', (entry.save a).run held s = (.ok (), s') →
        slot.load.run held s' = (.ok a, s')
          ∧ entry.loadEntry.run held s' = (if (shape.write a).isNull then .error slot.notFound
            else .ok a, s'))
      ∧ ((slot.load.run held s).1 = .error slot.notFound ↔ s.store.get slot.bytes = .ok none)
      ∧ ((entry.loadEntry.run held s).1 = .error slot.notFound ↔ s.store.get slot.bytes = .ok none
        ∨ ∃ a, (slot.load.run held s).1 = .ok a ∧ (shape.write a).isNull = true) := by
  intro slot entry
  refine ⟨slot.useAll_entry held s, fun ho us => ?_, fun a s' hs => ?_,
    slot.load_notFound_iff held s, slot.loadEntry_notFound_iff held s⟩
  · subst ho
    have hsame : slot.maskedAnswer = id := funext (Slot.maskedAnswer_eq h.isNull)
    refine (slot.useAll_entry held s us).trans ?_
    rw [hsame, List.map_id]
  · have hload : slot.load.run held s' = (.ok a, s') := Slot.load_of_save h.lawful hs
    refine ⟨hload, (slot.loadEntry_run held s').trans ?_⟩
    rw [hload]
    rfl

theorem entry_used_as_slot_null :
    let shape := Shape.nullable Shape.int
    let entry := Slot.under "n" "k" shape
    let s : Session := ⟨.memory .empty, []⟩
    (entry.save none).run (.ok []) s = (.ok (), ((entry.save none).run (.ok []) s).2)
      ∧ entry.loadEntry.run (.ok []) ((entry.save none).run (.ok []) s).2
        = (.error entry.notFound, ((entry.save none).run (.ok []) s).2) := by
  intro shape entry s
  have hsaved : ((entry.save none).run (.ok []) s).1 = .ok () :=
    eq_ok_of_toOption (by decide +kernel)
  have hs : (entry.save none).run (.ok []) s = (.ok (), ((entry.save none).run (.ok []) s).2) :=
    Prod.ext hsaved rfl
  have hload := (entry_used_as_slot (.nullable .int) "n" "k" (.ok []) s).2.2.1 none _ hs
  exact ⟨hs, hload.2⟩

theorem null_entry_not_found :
    ¬ ∀ (α : Type) (shape : Shape α) (optional : Bool), shape.Declared optional →
      ∀ (space key : String) (s : Session) (us : List (Use α)),
        let entry := Slot.under space key shape
        entry.useAll (.ok []) entry.loadEntry us s = entry.useAll (.ok []) entry.load us s := by
  intro h
  have hsame := h _ (Shape.nullable Shape.int) true (.nullable .int) "n" "k"
    ⟨.memory .empty, []⟩ [.save none, .load]
  have hloads := congrArg (fun x => x.1.map Except.toBool) hsame
  revert hloads
  decide +kernel

end DonationLedger
