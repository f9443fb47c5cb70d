import DonationLedger.Proofs.Migration.Applied
import DonationLedger.Proofs.Migration.Repeat
import DonationLedger.Proofs.Shape.Writable

namespace DonationLedger

namespace Migration

variable {held : Except Fault (List Coin)} {registry : Registry} {t : VersionTag}
  {m : MigrateMessage} {s s' : Session} {a : Except Fault Response} {p : Progress}

def Status.after : Except Fault Response → Status
  | .ok _ => complete
  | .error f => if f.isRefusal then rejected else inProgress

theorem Progress.stopped_status {progress : Progress} (h : progress.status = .inProgress)
    (f : Fault) : (progress.stopped f).status = Status.after (.error f) := by
  cases f with
  | refusal r => rfl
  | _ => exact h

theorem found_isRefusal {r : Except Fault (Option Bytes)} {f : Fault}
    (hr : ∀ f, r = .error f → f.isRefusal = true) (h : VersionTag.slot.found r = .error f) :
    f.isRefusal = true := by
  unfold Slot.found at h
  split at h
  · exact hr f (Except.error.inj h ▸ rfl)
  · exact Except.error.inj h ▸ rfl
  · unfold Slot.decode at h
    split at h
    · cases h
    · exact Except.error.inj h ▸ rfl

theorem planned_isRefusal {stored : VersionTag} {f : Fault}
    (h : planned registry t stored = .error f) : f.isRefusal = true := by
  unfold planned at h
  split at h
  · exact Except.error.inj h ▸ rfl
  · split at h
    · cases h
    · unfold Registry.chainFrom at h
      split at h
      · cases h
      · exact Except.error.inj h ▸ rfl

theorem plan_isRefusal {f : Fault}
    (h : (VersionTag.slot.found (s.store.get VersionTag.slot.bytes)).bind (planned registry t)
      = .error f) : f.isRefusal = true := by
  cases hfound : VersionTag.slot.found (s.store.get VersionTag.slot.bytes) with
  | error f' =>
      rw [hfound] at h
      obtain rfl := Except.error.inj h
      exact found_isRefusal (fun _ hget => (Store.refuses_of_get hget).isRefusal) hfound
  | ok stored =>
      rw [hfound] at h
      exact planned_isRefusal h

theorem read_of_planned {s : Store} {chain : List Upgrade}
    (h : (VersionTag.slot.found (s.get VersionTag.slot.bytes)).bind (planned registry t)
      = .ok chain) : ∃ v, s.get VersionTag.slot.bytes = .ok v := by
  cases hget : s.get VersionTag.slot.bytes with
  | error f =>
      rw [hget] at h
      cases h
  | ok v => exact ⟨v, rfl⟩

theorem applyAll_status {us : List Upgrade} {response : Response} {progress : Progress} {f : Fault}
    (hp : progress.status = .inProgress)
    (h : (applyAll m us response progress).run held s = ((.error f, p), s')) :
    p.status = Status.after (.error f) := by
  induction us generalizing response progress s with
  | nil => cases h
  | cons u us ih =>
      rw [applyAll_run_cons] at h
      cases hu : (u.handler m).run held { s with trace := s.trace ++ [line u] } with
      | mk x s₁ =>
          rw [hu] at h
          cases x with
          | error f =>
              cases h
              exact Progress.stopped_status hp f
          | ok r =>
              refine ih ?_ h
              exact hp

theorem finish_overlay (held : Except Fault (List Coin)) (t : VersionTag) (response : Response)
    (progress : Progress) (w : Pending) (s : Store) (trace : List String) :
    ∃ r s', (finish t response progress).run held ⟨.overlay w s, trace⟩
      = ((.ok r, { progress with status := .complete }), s') := by
  obtain ⟨b, hb⟩ := VersionTag.encode_ok t
  have hsave : (VersionTag.slot.save t).run held ⟨.overlay w s, trace⟩
      = (.ok (), ⟨.overlay (w.put VersionTag.slot.bytes (some b)) s, trace⟩) := by
    rw [Slot.encode] at hb
    rw [Slot.save, Slot.saveJson_run, hb]
    rfl
  rw [finish_run, hsave]
  exact ⟨_, _, rfl⟩

theorem migrate_status {w : Pending} {s : Store} {trace : List String}
    (h : (migrate registry t m).run held ⟨.overlay w s, trace⟩ = ((a, p), s')) :
    p.status = Status.after a := by
  rw [migrate_run] at h
  cases hchain : (VersionTag.slot.found ((Store.overlay w s).get VersionTag.slot.bytes)).bind
      (planned registry t) with
  | error f =>
      rw [hchain] at h
      cases h
      have hf := plan_isRefusal (s := ⟨.overlay w s, trace⟩) hchain
      cases f with
      | refusal r => rfl
      | _ => cases hf
  | ok chain =>
      rw [hchain] at h
      cases chain with
      | nil =>
          cases h
          rfl
      | cons u us =>
          dsimp only at h
          obtain ⟨w', hw'⟩ := Program.run_stays_overlay held (applyAll m (u :: us) Response.empty
            { Progress.start with status := .inProgress }) w s trace
          cases hall : (applyAll m (u :: us) Response.empty
              { Progress.start with status := .inProgress }).run held ⟨.overlay w s, trace⟩ with
          | mk x s₁ =>
              rw [hall] at h hw'
              obtain ⟨x, q⟩ := x
              cases x with
              | error f =>
                  cases h
                  exact applyAll_status rfl hall
              | ok response =>
                  obtain ⟨store, trace₁⟩ := s₁
                  obtain rfl : store = .overlay w' s := hw'
                  obtain ⟨r, s₂, hfinish⟩ := finish_overlay held t response q w' s trace₁
                  cases hfinish.symm.trans h
                  rfl

theorem read_of_migrate {r : Response} {s : Store} {trace : List String}
    (h : (migrate registry t m).run held ⟨s.overlayOf, trace⟩ = ((.ok r, p), s')) :
    ∃ v, s.get VersionTag.slot.bytes = .ok v := by
  rw [migrate_run] at h
  cases hchain : (VersionTag.slot.found (s.get VersionTag.slot.bytes)).bind
      (planned registry t) with
  | error f =>
      have hsame : (VersionTag.slot.found (s.overlayOf.get VersionTag.slot.bytes)).bind
          (planned registry t) = .error f := hchain
      rw [hsame] at h
      cases h
  | ok chain => exact read_of_planned hchain

end Migration

namespace Engine

open Migration (Status)

variable {e : Engine} {held : Except Fault (List Coin)} {payload : Json} {s : Session}

theorem migration_not_stops (e : Engine) (held : Except Fault (List Coin)) (payload : Json)
    (h : s.store.isFaulty = false) : ¬Stops held (e.migration payload) s := by
  intro hstops
  obtain ⟨r, p, t, hrun⟩ := hstops.run_ok
  obtain ⟨m, hm⟩ := migration_run_ok hrun
  obtain ⟨v, hv⟩ := Migration.read_of_migrate hm
  exact not_stops_of_takes (Store.takesWrites_of_get h hv) hstops

/-- The status and the applied upgrades that go with an answer, by whether the message was read. -/
inductive Reported : Bool → Except Failure (Option Response) → Status → List String → Prop
  | complete (response : Option Response) (applied : List String) :
      Reported true (.ok response) .complete applied
  | rejected (r : Refusal) : Reported true (.error (Fault.refusal r).failure) .rejected []
  | inProgress {f : Fault} (h : f.isRefusal = false) :
      Reported true (.error f.failure) .inProgress []
  | pending (family reason : String) :
      Reported false (.error (Fault.refusal (.invalidMessage family reason)).failure) .pending []

theorem Reported.of_status {p : Migration.Progress} {a : Except Fault Response}
    (h : p.status = Status.after a) :
    ∃ applied, (migrationReply (a, p)).data = migrationData p.status applied
      ∧ Reported true (migrationReply (a, p)).answer p.status applied := by
  cases a with
  | ok r => exact ⟨p.applied, rfl, h ▸ .complete (some r) p.applied⟩
  | error f =>
      refine ⟨[], rfl, ?_⟩
      rw [h]
      cases f with
      | refusal r => exact .rejected r
      | _ => exact .inProgress rfl

theorem exists_reported (h : ¬Stops held (e.migration payload) s) :
    ∃ reply s' status applied, e.migrate held payload s = (.ok reply, s')
      ∧ reply.data = migrationData status applied
      ∧ Reported (MigrateMessage.ofJson? payload).isSome reply.answer status applied := by
  cases hm : MigrateMessage.ofJson? payload with
  | none =>
      let f : Fault := .refusal (.invalidMessage Family.migrate.name shapeReport)
      have hrun : (e.migration payload).run held { s with store := s.store.overlayOf }
          = ((.error f, Migration.Progress.start), { s with store := s.store.overlayOf }) := by
        simp only [migration, Family.parse, hm]
        rfl
      have hreply : e.migrate held payload s
          = (.ok ⟨.error f.failure, migrationData .pending []⟩,
            { s with trace := s.trace ++ [e.failedLine .migrate f] }) := by
        rw [migrate, transact_refused hrun]
        rfl
      exact ⟨_, _, .pending, [], hreply, rfl, .pending Family.migrate.name shapeReport⟩
  | some m =>
      have hmigration : e.migration payload = Migration.migrate e.registry e.tag m := by
        simp only [migration, Family.parse, hm]
      obtain ⟨s', hs'⟩ := transact_answered e .migrate h
      cases hrun : (e.migration payload).run held s.overlaid with
      | mk x t =>
          obtain ⟨a, p⟩ := x
          rw [hrun] at hs'
          rw [hmigration] at hrun
          obtain ⟨applied, hdata, h⟩ := Reported.of_status (Migration.migrate_status hrun)
          exact ⟨_, s', p.status, applied, by rw [migrate, hs']; rfl, hdata, h⟩

theorem kind_eq_unstated (f : Fault) : f.kind = "execution_error" ↔ f.isRefusal = false := by
  cases f with
  | refusal r => cases r <;> simp [Fault.kind, Refusal.kind, Fault.isRefusal]
  | _ => exact ⟨fun _ => rfl, fun _ => rfl⟩

theorem migrate_reports (e : Engine) (held : Except Fault (List Coin)) (payload : Json)
    (s : Session) :
    (s.store.isFaulty = false → ¬Stops held (e.migration payload) s)
      ∧ (Stops held (e.migration payload) s → ∃ f s', e.migrate held payload s = (.error f, s')
        ∧ f.kind = "storage_fault")
      ∧ (¬Stops held (e.migration payload) s → ∃ reply s' status applied,
        e.migrate held payload s = (.ok reply, s')
          ∧ reply.data = migrationData status applied
          ∧ (status = .complete ↔ reply.isOk = true)
          ∧ (status = .rejected ↔ (MigrateMessage.ofJson? payload).isSome = true
            ∧ ∃ f, reply.answer = .error f ∧ f.kind ≠ "execution_error")
          ∧ (status = .inProgress ↔ ∃ f, reply.answer = .error f ∧ f.kind = "execution_error")
          ∧ (status = .pending ↔ (MigrateMessage.ofJson? payload).isSome = false)
          ∧ (reply.isOk = true ∨ applied = [])) := by
  refine ⟨e.migration_not_stops held payload, fun hstops => ?_, fun hanswers => ?_⟩
  · obtain ⟨f, t, -, ht, hrefuses, -⟩ := transact_stopped e .migrate hstops
    exact ⟨f, t, by rw [migrate, ht]; rfl, hrefuses.kind⟩
  · obtain ⟨⟨answer, data⟩, s', status, applied, hs', hdata, h⟩ := exists_reported hanswers
    refine ⟨_, s', status, applied, hs', hdata, ?_⟩
    generalize (MigrateMessage.ofJson? payload).isSome = read at h
    dsimp only [Reply.isOk] at h ⊢
    cases h with
    | complete response applied => simp [Except.toBool]
    | rejected r =>
        have hkind : (Fault.refusal r).failure.kind ≠ "execution_error" := by
          rw [Fault.failure, Ne, kind_eq_unstated]
          simp [Fault.isRefusal]
        simp [Except.toBool, hkind]
    | @inProgress f hf =>
        have hkind : f.failure.kind = "execution_error" := (kind_eq_unstated f).2 hf
        simp [Except.toBool, hkind]
    | pending family reason => simp [Except.toBool, Fault.failure, Fault.kind, Refusal.kind]

theorem report_of_failed {c : Content} {payload : Json} {status : Status}
    (hfail : ((e.migration payload).eval held ⟨c, []⟩).1.1.toBool = false)
    (hstatus : ((e.migration payload).eval held ⟨c, []⟩).1.2.status = status) :
    (e.migrate held payload ⟨.memory c, []⟩).1.map (fun reply => (reply.isOk, reply.data))
      = .ok (false, migrationData status []) := by
  obtain ⟨s, hs, -⟩ := e.migrate_open held payload (s := ⟨.memory c, []⟩) rfl
  have hpage : Session.page ⟨.memory c, []⟩ = ⟨c, []⟩ := rfl
  rw [hs, hpage]
  generalize ((e.migration payload).eval held ⟨c, []⟩).1 = r at hfail hstatus
  obtain ⟨a, p⟩ := r
  cases a with
  | ok r => cases hfail
  | error f => exact hstatus ▸ rfl

theorem failed_migration_unfinished :
    let old := Content.ofList [
      (VersionTag.slot.bytes,
        (VersionTag.shape.write ⟨"counting-contract", "0.1.0"⟩).toBytes),
      (Upgrades.counterSlot.bytes, (Shape.int.write (counterLimit + 1)).toBytes),
      (Upgrades.minimalDonationSlot.bytes, (Coin.shape.write ⟨"atom", 10⟩).toBytes),
      (Upgrades.ownerSlot.bytes, (Shape.text.write "owner").toBytes)]
    let report (payload : Json) := (current.migrate (.ok []) payload ⟨.memory old, []⟩).1.map
      fun reply => (reply.isOk, reply.data)
    report (.obj []) = .ok (false, migrationData .inProgress [])
      ∧ report (.obj [("bogus", .int 1)]) = .ok (false, migrationData .pending []) := by
  intro old report
  have hstopped : ((current.migration (.obj [])).eval (.ok []) ⟨old, []⟩).1.1.toBool = false
      ∧ ((current.migration (.obj [])).eval (.ok []) ⟨old, []⟩).1.2.status = .inProgress := by
    decide +kernel
  exact ⟨report_of_failed hstopped.1 hstopped.2, report_of_failed rfl rfl⟩

end Engine

end DonationLedger
