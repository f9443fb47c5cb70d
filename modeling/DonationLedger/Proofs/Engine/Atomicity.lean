import DonationLedger.Proofs.Engine.Period

namespace DonationLedger.Engine

variable {β : Type}

/-- A reply and the session after it, beside what the program does on the store itself. -/
structure AllOrNothing (c : Content) (direct : (Except Fault Response × β) × Session)
    (reply : Reply) (s : Session) : Prop where
  done : ∀ response, reply.answer = .ok response →
    ∃ r, direct.1.1 = .ok r ∧ response = some r ∧ s.store = direct.2.store
  failed : ∀ f, reply.answer = .error f →
    ∃ fault, direct.1.1 = .error fault ∧ f = fault.failure ∧ s.store = .memory c

theorem transact_all_or_nothing (e : Engine) (entry : Family) (held : Except Fault (List Coin))
    (p : Program (Except Fault Response × β)) (c : Content) (trace : List String)
    (data : Except Fault Response × β → List (String × Json)) :
    ∃ reply s, ((e.transact entry held p ⟨.memory c, trace⟩).1.map
          (fun x => replyOf x.1 (data x)), (e.transact entry held p ⟨.memory c, trace⟩).2)
        = (.ok reply, s)
      ∧ AllOrNothing c (p.run held ⟨.memory c, trace⟩) reply s
      ∧ reply.data = data (p.run held ⟨.memory c, trace⟩).1 := by
  rw [e.transact_memory entry held p c trace, p.run_memory held c trace]
  cases he : p.eval held ⟨c, trace⟩ with
  | mk x g =>
      obtain ⟨a, b⟩ := x
      cases a with
      | ok r =>
          refine ⟨_, _, rfl, ⟨fun response h => ?_, fun f h => by cases h⟩, rfl⟩
          exact ⟨r, rfl, (Except.ok.inj h).symm, rfl⟩
      | error fault =>
          refine ⟨_, _, rfl, ⟨fun response h => (by cases h), fun f h => ?_⟩, rfl⟩
          exact ⟨fault, rfl, (Except.error.inj h).symm, rfl⟩

variable (e : Engine) (held : Except Fault (List Coin)) (c : Content) (trace : List String)

theorem migrate_all_or_nothing (payload : Json) :
    ∃ reply s, e.migrate held payload ⟨.memory c, trace⟩ = (.ok reply, s)
      ∧ AllOrNothing c ((e.migration payload).run held ⟨.memory c, trace⟩) reply s
      ∧ (∀ response, reply.answer = .ok response →
          reply.data = migrationData ((e.migration payload).run held ⟨.memory c, trace⟩).1.2.status
            ((e.migration payload).run held ⟨.memory c, trace⟩).1.2.applied)
      ∧ (∀ f, reply.answer = .error f → ∃ status, reply.data = migrationData status []) := by
  obtain ⟨reply, s, hreply, hboth, hdata⟩ :=
    e.transact_all_or_nothing .migrate held (e.migration payload) c trace
      (fun x => migrationData x.2.status (if x.1.toBool then x.2.applied else []))
  refine ⟨reply, s, hreply, hboth, fun response h => ?_, fun f h => ?_⟩
  · obtain ⟨r, hr, -⟩ := hboth.done response h
    rw [hdata, hr]
    rfl
  · obtain ⟨fault, hfault, -⟩ := hboth.failed f h
    rw [hdata, hfault]
    exact ⟨_, rfl⟩

theorem query_memory_kept (payload : Json) :
    ∃ reply s, e.query held payload ⟨.memory c, trace⟩ = (.ok reply, s)
      ∧ s.store = .memory c := by
  have hrun := Program.run_memory held (inquiry payload).program c trace
  have hpage : ((inquiry payload).program.eval held ⟨c, trace⟩).2 = ⟨c, trace⟩ :=
    inquiry_eval held ⟨c, trace⟩ payload
  rw [hpage] at hrun
  exact ⟨_, _, rfl, by simp only [hrun]⟩

theorem entry_points_all_or_nothing :
    (∀ caller payload, ∃ reply s,
        e.instantiate held caller payload ⟨.memory c, trace⟩ = (.ok reply, s)
        ∧ AllOrNothing c ((creation caller payload).run held ⟨.memory c, trace⟩) reply s)
      ∧ (∀ caller payload, ∃ reply s,
        e.execute held caller payload ⟨.memory c, trace⟩ = (.ok reply, s)
        ∧ AllOrNothing c ((execution caller payload).run held ⟨.memory c, trace⟩) reply s)
      ∧ (∀ payload, ∃ reply s, e.migrate held payload ⟨.memory c, trace⟩ = (.ok reply, s)
        ∧ AllOrNothing c ((e.migration payload).run held ⟨.memory c, trace⟩) reply s
        ∧ (∀ response, reply.answer = .ok response →
            reply.data
              = migrationData ((e.migration payload).run held ⟨.memory c, trace⟩).1.2.status
                ((e.migration payload).run held ⟨.memory c, trace⟩).1.2.applied)
        ∧ (∀ f, reply.answer = .error f → ∃ status, reply.data = migrationData status []))
      ∧ (∀ payload, ∃ reply s, e.query held payload ⟨.memory c, trace⟩ = (.ok reply, s)
        ∧ s.store = .memory c) := by
  refine ⟨fun caller payload => ?_, fun caller payload => ?_, e.migrate_all_or_nothing held c trace,
    e.query_memory_kept held c trace⟩
  · obtain ⟨reply, s, hreply, hboth, -⟩ :=
      e.transact_all_or_nothing .instantiate held (creation caller payload) c trace (fun _ => [])
    exact ⟨reply, s, hreply, hboth⟩
  · obtain ⟨reply, s, hreply, hboth, -⟩ :=
      e.transact_all_or_nothing .execute held (execution caller payload) c trace (fun _ => [])
    exact ⟨reply, s, hreply, hboth⟩

example :
    let tag : VersionTag := ⟨"counting-contract", "0.1.0"⟩
    let c := Content.ofList [
      (Upgrades.counterSlot.bytes, (Json.int 7).toBytes),
      (Upgrades.minimalDonationSlot.bytes, (Coin.shape.write ⟨"atom", 10⟩).toBytes),
      (Upgrades.ownerSlot.bytes, (Json.str "owner").toBytes),
      (VersionTag.slot.bytes, (VersionTag.shape.write tag).toBytes)]
    let payload := Json.obj [("parent", .obj [
      ("addr", .str "parent"), ("donating_period", .int 0), ("part", .str "0.1")])]
    let direct := (current.migration payload).run (.ok []) ⟨.memory c, []⟩
    let (reply, s) := current.migrate (.ok []) payload ⟨.memory c, []⟩
    direct.1.2.applied = ["0.1.0"]
      ∧ direct.2.store.content.get? Upgrades.counterSlot.bytes = none
      ∧ reply.toOption.map Reply.isOk = some false
      ∧ s.store.content.get? Upgrades.counterSlot.bytes = some (Json.int 7).toBytes := by
  decide +kernel

end DonationLedger.Engine
