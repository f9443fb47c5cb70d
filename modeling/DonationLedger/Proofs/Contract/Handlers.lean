import DonationLedger.Engine
import DonationLedger.Proofs.Contract.Command

namespace DonationLedger

variable {held : Except Fault (List Coin)} {caller : Caller} {g g' : Page} {r : Response}
  {payload : Json}

theorem Slot.get?_insert_ne {α : Type} (slot : Slot α) {k : Bytes} (h : k ≠ slot.bytes)
    (c : Content) (b : Bytes) : (c.insert slot.bytes b).get? k = c.get? k := by
  rw [Content.get?_insert, if_neg (Ne.symm h)]

theorem stateKey_ne_tagKey : State.slot.bytes ≠ VersionTag.slot.bytes := by decide

theorem stateKey_ne_forwardingKey : State.slot.bytes ≠ Forwarding.slot.bytes := by decide

theorem tagKey_ne_forwardingKey : VersionTag.slot.bytes ≠ Forwarding.slot.bytes := by decide

def Parent.toForwarding (p : Parent) : Forwarding := ⟨p.address, p.period, p.part⟩

theorem Parent.forwarding_eq_ok {p : Parent} {f : Forwarding} (h : p.forwarding = .ok f) :
    f = p.toForwarding ∧ 1 ≤ p.period := by
  unfold forwarding at h
  split at h
  · cases h
  · next hperiod =>
      split at h
      · cases h
      · cases ha : Address.destination p.address with
        | error e =>
            rw [ha] at h
            cases h
        | ok a =>
            rw [ha] at h
            obtain ⟨rfl, -⟩ := Address.destination_eq_ok ha
            exact ⟨(Except.ok.inj h).symm, by omega⟩

structure Founded (caller : Caller) (m : InstantiateMessage) (c c' : Content) : Prop where
  state : State.slot.loaded c'
    = .ok ⟨m.counter, m.minimalDonation, caller.sender, m.parent.map (·.period)⟩
  tag : VersionTag.slot.loaded c' = .ok VersionTag.current
  forwarding : ∀ p, m.parent = some p →
    1 ≤ p.period ∧ Forwarding.slot.loaded c' = .ok p.toForwarding
  orphan : m.parent = none → c'.get? Forwarding.slot.bytes = c.get? Forwarding.slot.bytes
  frame : ∀ k, k ≠ State.slot.bytes → k ≠ VersionTag.slot.bytes → k ≠ Forwarding.slot.bytes →
    c'.get? k = c.get? k

theorem configureParent_eval_ok {parent : Option Parent} {n : Option Int}
    (h : (configureParent parent).eval held g = (.ok n, g')) :
    n = parent.map (·.period)
      ∧ (∀ p, parent = some p →
        1 ≤ p.period ∧ Forwarding.slot.loaded g'.content = .ok p.toForwarding)
      ∧ (parent = none → g' = g)
      ∧ ∀ k, k ≠ Forwarding.slot.bytes → g'.content.get? k = g.content.get? k := by
  cases parent with
  | none =>
      obtain ⟨rfl, rfl⟩ := Action.pure_eval_ok h
      refine ⟨rfl, ?_, fun _ => rfl, fun _ _ => rfl⟩
      intro p hp
      cases hp
  | some p =>
      obtain ⟨f, g₁, h₁, h₂⟩ := Action.bind_eval_ok h
      obtain ⟨hf, rfl⟩ := Action.ofExcept_eval_ok h₁
      obtain ⟨rfl, hperiod⟩ := Parent.forwarding_eq_ok hf
      obtain ⟨u, g₂, h₃, h₄⟩ := Action.bind_eval_ok h₂
      obtain ⟨rfl, rfl⟩ := Action.pure_eval_ok h₄
      obtain ⟨b, hb, rfl⟩ := Slot.save_eval_ok h₃
      refine ⟨rfl, ?_, ?_, fun k hk => Forwarding.slot.get?_insert_ne hk _ b⟩
      · intro q hq
        obtain rfl := Option.some.inj hq
        exact ⟨hperiod, Slot.loaded_insert Forwarding.shape_lawful hb _⟩
      · intro hn
        cases hn

theorem instantiate_eval_ok {m : InstantiateMessage}
    (h : (instantiate caller m).eval held g = (.ok r, g')) :
    r.effects = [] ∧ Founded caller m g.content g'.content := by
  obtain ⟨n, g₁, h₁, h₂⟩ := Action.bind_eval_ok h
  obtain ⟨rfl, hforwarding, horphan, hframe⟩ := configureParent_eval_ok h₁
  obtain ⟨u, g₂, h₃, h₄⟩ := Action.bind_eval_ok h₂
  obtain ⟨b, hb, rfl⟩ := Slot.save_eval_ok h₃
  obtain ⟨u', g₃, h₅, h₆⟩ := Action.bind_eval_ok h₄
  obtain ⟨b', hb', rfl⟩ := Slot.save_eval_ok h₅
  obtain ⟨rfl, rfl⟩ := Action.pure_eval_ok h₆
  have htag (k : Bytes) (hk : k ≠ VersionTag.slot.bytes) (hs : k ≠ State.slot.bytes) :
      ((g₁.content.insert VersionTag.slot.bytes b).insert State.slot.bytes b').get? k
        = g₁.content.get? k := by
    rw [State.slot.get?_insert_ne hs, VersionTag.slot.get?_insert_ne hk]
  refine ⟨rfl, ?_, ?_, fun p hp => ?_, fun hn => ?_, fun k hs ht hf => ?_⟩
  · exact Slot.loaded_insert State.shape_lawful hb' _
  · rw [VersionTag.slot.loaded_congr (State.slot.get?_insert_ne stateKey_ne_tagKey.symm _ b')]
    exact Slot.loaded_insert VersionTag.shape_lawful hb _
  · obtain ⟨hperiod, hloaded⟩ := hforwarding p hp
    refine ⟨hperiod, ?_⟩
    rw [Forwarding.slot.loaded_congr (htag _ tagKey_ne_forwardingKey.symm
      stateKey_ne_forwardingKey.symm)]
    exact hloaded
  · rw [htag _ tagKey_ne_forwardingKey.symm stateKey_ne_forwardingKey.symm, horphan hn]
  · rw [htag k ht hs, hframe k hf]

theorem Query.answer_eval (q : Query) : (q.answer.eval held g).2 = g := by
  cases q with
  | value =>
      rw [Query.answer, Action.eval_bind, Slot.eval_load]
      cases State.slot.loaded g.content <;> rfl

theorem Migration.migrate_eval_current (held : Except Fault (List Coin)) (m : MigrateMessage)
    (registry : Registry) {t : VersionTag} (ht : VersionTag.slot.loaded g.content = .ok t) :
    (migrate registry t m).eval held g
      = ((.ok Response.empty, { Progress.start with status := .complete }), g) := by
  have hp : (plan registry t).program.eval held g = (.ok [], g) := by
    refine (Action.eval_bind_ok held (VersionTag.slot.eval_load_of_loaded held ht)).trans ?_
    rw [if_neg (not_not_intro rfl), if_pos rfl]
    rfl
  rw [migrate, Program.bind_eq, Program.eval_bind, hp]
  rfl

namespace Engine

section Handling

variable {α : Type} {entry : Family} {read : Json → Option α} {handler : α → Action Response}

theorem handling_eval {m : α} (hm : read payload = some m) :
    (handling entry read handler payload).eval held g
      = ((((handler m).eval held g).1, ()), ((handler m).eval held g).2) := by
  have ha : ((do
      let m ← Action.ofExcept (entry.parse read payload)
      handler m) : Action Response).eval held g = (handler m).eval held g := by
    simp only [Action.eval_bind, Action.eval_ofExcept, Family.parse, hm]
  rw [handling, Program.eval_map]
  exact congrArg (fun x => ((x.1, ()), x.2)) ha

theorem handling_eval_ok
    (h : (handling entry read handler payload).eval held g = ((.ok r, ()), g')) :
    ∃ m, read payload = some m ∧ (handler m).eval held g = (.ok r, g') := by
  have ha : ((do
      let m ← Action.ofExcept (entry.parse read payload)
      handler m) : Action Response).eval held g = (.ok r, g') := by
    rw [handling, Program.eval_map] at h
    have hr := congrArg (fun x => x.1.1) h
    have hg := congrArg Prod.snd h
    exact Prod.ext hr hg
  obtain ⟨m, g₁, h₁, h₂⟩ := Action.bind_eval_ok ha
  obtain ⟨hm, rfl⟩ := Action.ofExcept_eval_ok h₁
  unfold Family.parse at hm
  split at hm
  · next m' hm' => exact ⟨m, by rw [hm', Except.ok.inj hm], h₂⟩
  · cases hm

end Handling

theorem creation_eval_ok (h : (creation caller payload).eval held g = ((.ok r, ()), g')) :
    ∃ m, InstantiateMessage.ofJson? payload = some m ∧ r.effects = []
      ∧ Founded caller m g.content g'.content := by
  obtain ⟨m, hm, hi⟩ := handling_eval_ok h
  exact ⟨m, hm, instantiate_eval_ok hi⟩

theorem execution_eval_ok (h : (execution caller payload).eval held g = ((.ok r, ()), g')) :
    ∃ command s s', Command.ofJson? payload = some command
      ∧ State.slot.loaded g.content = .ok s
      ∧ Command.Step caller held g.content s command s' r.effects
      ∧ State.Replaced g.content s' g'.content := by
  obtain ⟨command, hc, hp⟩ := handling_eval_ok h
  obtain ⟨s, s', hs, hstep, hr⟩ := Command.perform_eval_ok hp
  exact ⟨command, s, s', hc, hs, hstep, hr⟩

variable (held g) in
theorem inquiry_eval (payload : Json) : ((inquiry payload).eval held g).2 = g := by
  rw [inquiry, Action.eval_bind, Action.eval_ofExcept]
  cases Family.query.parse Query.ofJson? payload with
  | ok q => exact q.answer_eval
  | error f => rfl

theorem migration_eval_ok {e : Engine} {progress : Migration.Progress}
    (h : (e.migration payload).eval held g = ((.ok r, progress), g')) :
    ∃ t, VersionTag.slot.loaded g.content = .ok t := by
  cases ht : VersionTag.slot.loaded g.content with
  | ok t => exact ⟨t, rfl⟩
  | error f =>
      have hplan : (Migration.plan e.registry e.tag).program.eval held g = (.error f, g) :=
        Action.eval_bind_error held (VersionTag.slot.eval_load_of_loaded held ht)
      unfold migration at h
      cases hm : Family.migrate.parse MigrateMessage.ofJson? payload with
      | error f' =>
          rw [hm] at h
          cases h
      | ok m =>
          rw [hm] at h
          simp only [Migration.migrate, Program.bind_eq, Program.eval_bind, hplan] at h
          cases h

variable (held g) in
theorem migration_eval_current (payload : Json)
    (ht : VersionTag.slot.loaded g.content = .ok VersionTag.current) :
    ((current.migration payload).eval held g).2 = g
      ∧ ∀ r, ((current.migration payload).eval held g).1.1 = .ok r → r.effects = [] := by
  unfold migration
  cases Family.migrate.parse MigrateMessage.ofJson? payload with
  | error f => exact ⟨rfl, fun r hr => by cases hr⟩
  | ok m =>
      have hmigrate :=
        Migration.migrate_eval_current held m current.registry (t := current.tag) ht
      rw [hmigrate]
      exact ⟨rfl, fun r hr => by cases hr; rfl⟩

end Engine

end DonationLedger
