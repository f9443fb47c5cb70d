import DonationLedger.Migration.Upgrades
import DonationLedger.Proofs.Shape.Lawful
import DonationLedger.Proofs.Store.Taken

namespace DonationLedger

namespace Json

variable {α : Type} {read : Json → Option α} {ms : List (String × Json)} {name : String}

theorem members?_eq_some_iff {v : Json} : v.members? = some ms ↔ v = .obj ms := by
  cases v <;> simp [members?]

def Vacant (ms : List (String × Json)) (name : String) : Prop :=
  member? ms name = none ∨ member? ms name = some .null

theorem fieldOr?_none_iff :
    fieldOr? none (nullable? read) ms name = some none ↔ Vacant ms name := by
  unfold fieldOr? Vacant
  cases hm : member? ms name with
  | none => simp
  | some v => cases v <;> simp [nullable?]

theorem fieldOr?_some_iff (hnull : read .null = none) {a : α} :
    fieldOr? none (nullable? read) ms name = some (some a)
      ↔ ∃ v, member? ms name = some v ∧ read v = some a := by
  unfold fieldOr?
  cases hm : member? ms name with
  | none => simp
  | some v => cases v <;> simp [nullable?, hnull]

end Json

def Json.Counter (v : Json) (n : Int) : Prop := v.toInt? = some n ∧ 0 ≤ n ∧ n ≤ counterLimit

namespace State

open Json (Vacant)

def plain (s : State) : PlainState := ⟨s.counter, s.minimalDonation, s.owner⟩

def countdownName : String := "donating_parent"

def CountsDown (ms : List (String × Json)) : Option Int → Prop
  | none => Vacant ms countdownName
  | some n => ∃ v, Json.member? ms countdownName = some v ∧ v.Counter n

theorem fieldOr?_countdown_iff {ms : List (String × Json)} {countdown : Option Int} :
    Json.fieldOr? none (Json.nullable? (Json.toIntIn? 0 counterLimit)) ms countdownName
        = some countdown ↔ CountsDown ms countdown := by
  cases countdown with
  | none => exact Json.fieldOr?_none_iff
  | some n =>
      rw [Json.fieldOr?_some_iff rfl]
      exact exists_congr fun v => and_congr_right fun _ => Json.toIntIn?_eq_some_iff

theorem CountsDown.unique {ms : List (String × Json)} {m n : Option Int} (hm : CountsDown ms m)
    (hn : CountsDown ms n) : m = n :=
  Option.some.inj ((fieldOr?_countdown_iff.2 hm).symm.trans (fieldOr?_countdown_iff.2 hn))

theorem exists_countsDown_iff {ms : List (String × Json)} :
    (∃ countdown, CountsDown ms countdown) ↔ Vacant ms countdownName
      ∨ ∃ v n, Json.member? ms countdownName = some v ∧ v.Counter n := by
  constructor
  · rintro ⟨countdown, h⟩
    cases countdown with
    | none => exact .inl h
    | some n =>
        obtain ⟨v, hv, hn⟩ := h
        exact .inr ⟨v, n, hv, hn⟩
  · rintro (h | ⟨v, n, hv, hn⟩)
    · exact ⟨none, h⟩
    · exact ⟨some n, v, hv, hn⟩

theorem read_eq_some_iff {origin : Origin} {v : Json} {s : State} :
    shape.read origin v = some s
      ↔ PlainState.shape.read origin v = some s.plain
        ∧ ∃ ms, v = .obj ms ∧ CountsDown ms s.countdown := by
  simp only [← fieldOr?_countdown_iff, ← Json.members?_eq_some_iff, shape, PlainState.shape,
    Option.bind_eq_bind, Option.bind_eq_some_iff]
  constructor
  · rintro ⟨ms, hms, counter, hcounter, minimum, hminimum, owner, howner, countdown, hcountdown, hs⟩
    obtain rfl := Option.some.inj hs
    exact ⟨⟨ms, hms, counter, hcounter, minimum, hminimum, owner, howner, rfl⟩,
      ms, hms, hcountdown⟩
  · rintro ⟨⟨ms, hms, counter, hcounter, minimum, hminimum, owner, howner, hp⟩, ms', hms',
      hcountdown⟩
    obtain rfl := Option.some.inj (hms.symm.trans hms')
    obtain ⟨rfl, rfl, rfl⟩ := PlainState.mk.inj (Option.some.inj hp)
    exact ⟨ms, hms, _, hcounter, _, hminimum, _, howner, _, hcountdown, rfl⟩

theorem decode_eq_some_iff {b : Bytes} {s : State} :
    shape.decode b = some s
      ↔ PlainState.shape.decode b = some s.plain
        ∧ ∃ ms, Json.ofBytes? b = some (.obj ms) ∧ CountsDown ms s.countdown := by
  simp only [Shape.decode_eq_some_iff, read_eq_some_iff]
  constructor
  · rintro ⟨v, hv, hplain, ms, rfl, hcountdown⟩
    exact ⟨⟨_, hv, hplain⟩, ms, hv, hcountdown⟩
  · rintro ⟨⟨v, hv, hplain⟩, ms, hms, hcountdown⟩
    obtain rfl := Option.some.inj (hv.symm.trans hms)
    exact ⟨_, hv, hplain, ms, rfl, hcountdown⟩

theorem decode_iff_of_plain {b : Bytes} {p : PlainState} {ms : List (String × Json)}
    (hp : PlainState.shape.decode b = some p) (hms : Json.ofBytes? b = some (.obj ms)) {s : State} :
    shape.decode b = some s ↔ s.plain = p ∧ CountsDown ms s.countdown := by
  rw [decode_eq_some_iff, hp, hms, Option.some_inj]
  refine and_congr eq_comm ⟨?_, fun h => ⟨ms, rfl, h⟩⟩
  rintro ⟨ms', hms', h⟩
  obtain rfl := Json.obj.inj (Option.some.inj hms')
  exact h

end State

namespace PlainState

theorem exists_members {b : Bytes} {p : PlainState} (h : shape.decode b = some p) :
    ∃ ms, Json.ofBytes? b = some (.obj ms) := by
  obtain ⟨v, hv, hread⟩ := Shape.decode_eq_some_iff.1 h
  obtain ⟨ms, hms, -⟩ := Option.bind_eq_some_iff.1 hread
  exact ⟨ms, Json.members?_eq_some_iff.1 hms ▸ hv⟩

theorem decode_encoded {p : PlainState} {b : Bytes} (h : slot.encode p = .ok b) :
    State.shape.decode b = some ⟨p.counter, p.minimalDonation, p.owner, none⟩ := by
  have hdecode : shape.decode b = some p :=
    Slot.decode_eq_ok_iff.1 (Slot.decode_of_encode shape_lawful h)
  have hbytes : b = (shape.write p).toBytes := by
    unfold Slot.encode Slot.encodeJson at h
    split at h
    · exact (Except.ok.inj h).symm
    · cases h
  obtain ⟨v, hv, -⟩ := Shape.decode_eq_some_iff.1 hdecode
  have hwrite := hv
  rw [hbytes, Json.ofBytes?_toBytes (shape_lawful.plain p)] at hwrite
  split at hwrite
  · obtain rfl := Option.some.inj hwrite
    refine State.decode_eq_some_iff.2 ⟨hdecode, _, hv, .inl ?_⟩
    exact Json.member?_eq_none_iff.2 (by simp [State.countdownName])
  · cases hwrite

end PlainState

namespace Slot

variable {α : Type} (slot : Slot α) (held : Except Fault (List Coin)) {s : Session}

theorem load_run_cases (s : Session) :
    (∃ f, slot.load.run held s = (.error f, s)) ∨ ∃ a, slot.load.run held s = (.ok a, s) := by
  rw [load_run]
  cases slot.found (s.store.get slot.bytes) with
  | error f => exact .inl ⟨f, rfl⟩
  | ok a => exact .inr ⟨a, rfl⟩

theorem save_run_cases (a : α) (s : Session) :
    (∃ f, (slot.save a).run held s = (.error f, s))
      ∨ ∃ b t, slot.encode a = .ok b ∧ (slot.save a).run held s = (.ok (), ⟨t, s.trace⟩)
        ∧ t.get slot.bytes = .ok (some b) ∧ (s.store.isFaulty = false → t.takesWrites = true) := by
  unfold save encode
  rw [saveJson_run]
  cases slot.encodeJson (slot.shape.write a) with
  | error f => exact .inl ⟨f, rfl⟩
  | ok b =>
      dsimp only
      cases hput : s.store.put slot.bytes (some b) with
      | error f => exact .inl ⟨f, rfl⟩
      | ok t =>
          refine .inr ⟨b, t, rfl, rfl, ?_, fun hfaulty => ?_⟩
          · rw [Store.get_of_put hput, if_pos rfl]
          · obtain ⟨t', hput', htakes⟩ :=
              Store.takes_put (Store.takesWrites_of_put hfaulty hput) slot.bytes (some b)
            obtain rfl := Except.ok.inj (hput.symm.trans hput')
            exact htakes

theorem erase_run_cases (s : Session) :
    (∃ f, slot.erase.run held s = (.error f, s) ∧ s.store.takesWrites = false)
      ∨ ∃ t, slot.erase.run held s = (.ok (), ⟨t, s.trace⟩)
        ∧ (s.store.takesWrites = true → t.takesWrites = true)
        ∧ ∀ k, k ≠ slot.bytes → t.get k = s.store.get k := by
  have hrun : slot.erase.run held s = Program.run held (.write slot.bytes none .done) s := rfl
  rw [hrun, Program.run]
  cases hput : s.store.put slot.bytes none with
  | error f =>
      refine .inl ⟨f, rfl, Bool.eq_false_iff.2 fun htakes => ?_⟩
      obtain ⟨t, ht, -⟩ := Store.takes_put htakes slot.bytes none
      cases hput.symm.trans ht
  | ok t =>
      refine .inr ⟨t, rfl, fun htakes => ?_, fun k hk => ?_⟩
      · obtain ⟨t', hput', htakes'⟩ := Store.takes_put htakes slot.bytes none
        obtain rfl := Except.ok.inj (hput.symm.trans hput')
        exact htakes'
      · rw [Store.get_of_put hput, if_neg (Ne.symm hk)]

end Slot

namespace Upgrades

theorem foldSlots_run (held : Except Fault (List Coin)) (s : Session) :
    (∃ f s', foldSlots.run held s = (.error f, s') ∧ (s.store.isFaulty = false → s' = s))
      ∨ ∃ (p : PlainState) (b : Bytes) (r : Response) (t : Store),
        counterSlot.load.run held s = (.ok p.counter, s)
        ∧ minimalDonationSlot.load.run held s = (.ok p.minimalDonation, s)
        ∧ ownerSlot.load.run held s = (.ok p.owner, s)
        ∧ PlainState.slot.encode p = .ok b
        ∧ foldSlots.run held s = (.ok r, ⟨t, s.trace⟩)
        ∧ t.get State.slot.bytes = .ok (some b) := by
  unfold foldSlots
  rcases counterSlot.load_run_cases held s with ⟨f, hf⟩ | ⟨counter, hcounter⟩
  · exact .inl ⟨f, s, Action.bind_run_of_error hf, fun _ => rfl⟩
  rw [Action.bind_run_of_ok hcounter]
  rcases minimalDonationSlot.load_run_cases held s with ⟨f, hf⟩ | ⟨minimum, hminimum⟩
  · exact .inl ⟨f, s, Action.bind_run_of_error hf, fun _ => rfl⟩
  rw [Action.bind_run_of_ok hminimum]
  rcases ownerSlot.load_run_cases held s with ⟨f, hf⟩ | ⟨owner, howner⟩
  · exact .inl ⟨f, s, Action.bind_run_of_error hf, fun _ => rfl⟩
  rw [Action.bind_run_of_ok howner]
  split
  · exact .inl ⟨.misshapen, s, rfl, fun _ => rfl⟩
  rcases PlainState.slot.save_run_cases held ⟨counter, minimum, owner⟩ s with
    ⟨f, hf⟩ | ⟨b, t, hb, hsave, hget, htakes⟩
  · exact .inl ⟨f, s, Action.bind_run_of_error hf, fun _ => rfl⟩
  rw [Action.bind_run_of_ok hsave]
  -- Only a faulty store that has taken the state refuses one of the three deletions.
  rcases counterSlot.erase_run_cases held ⟨t, s.trace⟩ with
    ⟨f, hf, hnot⟩ | ⟨t₁, h₁, htakes₁, hget₁⟩
  · exact .inl ⟨f, _, Action.bind_run_of_error hf, fun h => by cases hnot.symm.trans (htakes h)⟩
  rw [Action.bind_run_of_ok h₁]
  rcases minimalDonationSlot.erase_run_cases held ⟨t₁, s.trace⟩ with
    ⟨f, hf, hnot⟩ | ⟨t₂, h₂, htakes₂, hget₂⟩
  · exact .inl ⟨f, _, Action.bind_run_of_error hf,
      fun h => by cases hnot.symm.trans (htakes₁ (htakes h))⟩
  rw [Action.bind_run_of_ok h₂]
  rcases ownerSlot.erase_run_cases held ⟨t₂, s.trace⟩ with ⟨f, hf, hnot⟩ | ⟨t₃, h₃, -, hget₃⟩
  · exact .inl ⟨f, _, Action.bind_run_of_error hf,
      fun h => by cases hnot.symm.trans (htakes₂ (htakes₁ (htakes h)))⟩
  rw [Action.bind_run_of_ok h₃]
  refine .inr ⟨⟨counter, minimum, owner⟩, b, _, t₃, hcounter, hminimum, howner, hb, rfl, ?_⟩
  rw [hget₃ _ (by decide), hget₂ _ (by decide), hget₁ _ (by decide)]
  exact hget

end Upgrades

theorem layouts_read_alike :
    (∀ b s, State.shape.decode b = some s → PlainState.shape.decode b = some s.plain)
      ∧ (∀ b p, PlainState.shape.decode b = some p → ∃ ms, Json.ofBytes? b = some (.obj ms)
        ∧ ((∃ s, State.shape.decode b = some s) ↔ Json.Vacant ms State.countdownName
          ∨ ∃ v n, Json.member? ms State.countdownName = some v ∧ v.Counter n)
        ∧ ∀ s, State.shape.decode b = some s → s.plain = p
          ∧ (Json.Vacant ms State.countdownName → s.countdown = none)
          ∧ ∀ v n, Json.member? ms State.countdownName = some v → v.Counter n →
            s.countdown = some n)
      ∧ ∀ held s, (∃ f s', Upgrades.foldSlots.run held s = (.error f, s')
          ∧ (s.store.isFaulty = false → s' = s))
        ∨ ∃ r s' t, Upgrades.foldSlots.run held s = (.ok r, s')
          ∧ Upgrades.counterSlot.load.run held s = (.ok t.counter, s)
          ∧ Upgrades.minimalDonationSlot.load.run held s = (.ok t.minimalDonation, s)
          ∧ Upgrades.ownerSlot.load.run held s = (.ok t.owner, s)
          ∧ t.countdown = none
          ∧ ∀ held', State.slot.load.run held' s' = (.ok t, s') := by
  refine ⟨fun b s h => (State.decode_eq_some_iff.1 h).1, fun b p hp => ?_, fun held s => ?_⟩
  · obtain ⟨ms, hms⟩ := PlainState.exists_members hp
    have hdecode (s : State) := State.decode_iff_of_plain hp hms (s := s)
    refine ⟨ms, hms, ?_, fun s hs => ?_⟩
    · rw [← State.exists_countsDown_iff]
      constructor
      · rintro ⟨s, hs⟩
        exact ⟨s.countdown, ((hdecode s).1 hs).2⟩
      · rintro ⟨countdown, h⟩
        exact ⟨⟨p.counter, p.minimalDonation, p.owner, countdown⟩, (hdecode _).2 ⟨rfl, h⟩⟩
    · obtain ⟨hplain, hcountdown⟩ := (hdecode s).1 hs
      exact ⟨hplain, fun hvacant => hcountdown.unique (n := none) hvacant,
        fun v n hv hn => hcountdown.unique (n := some n) ⟨v, hv, hn⟩⟩
  · rcases Upgrades.foldSlots_run held s with hf | ⟨p, b, r, t, hcounter, hminimum, howner, hb, hrun,
      hget⟩
    · exact .inl hf
    · refine .inr ⟨r, _, ⟨p.counter, p.minimalDonation, p.owner, none⟩, hrun, hcounter, hminimum,
        howner, rfl, fun held' => ?_⟩
      rw [Slot.load_run, hget, Slot.found]
      exact Prod.ext (Slot.decode_eq_ok_iff.2 (PlainState.decode_encoded hb)) rfl

theorem layouts_read_alike_lenient :
    let b := Bytes.ofText ("\x7b\"counter\": true, \"owner\": \"owner\", \"donating_parent\": -1, "
      ++ "\"minimal_donation\": \x7b\"amount\": \" 10 \", \"denom\": \"atom\", \"note\": null\x7d, "
      ++ "\"counter\": 7.0, \"donating_parent\": \"0_2\"\x7d")
    let p : PlainState := ⟨7, ⟨"atom", 10⟩, "owner"⟩
    PlainState.shape.decode b = some p
      ∧ ∃ s, State.shape.decode b = some s ∧ s.plain = p ∧ s.countdown = some 2 := by
  intro b p
  have hp : PlainState.shape.decode b = some p := by decide +kernel
  obtain ⟨ms, hms, hiff, hsame⟩ := layouts_read_alike.2.1 b p hp
  have hmember : (Json.ofBytes? b).bind (fun v => (v.get? State.countdownName).bind Json.toText?)
      = some "0_2" := by decide +kernel
  rw [hms, Option.bind_some, Option.bind_eq_some_iff] at hmember
  obtain ⟨v, hv, htext⟩ := hmember
  have hcounter : v.Counter 2 := by
    cases v with
    | str text =>
        obtain rfl := Option.some.inj htext
        exact ⟨by decide +kernel, by decide, by decide⟩
    | _ => cases htext
  obtain ⟨s, hs⟩ := hiff.2 (.inr ⟨v, 2, hv, hcounter⟩)
  obtain ⟨hplain, -, hcountdown⟩ := hsame s hs
  exact ⟨hp, s, hs, hplain, hcountdown v 2 hv hcounter⟩

end DonationLedger
