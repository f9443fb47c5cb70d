import DonationLedger.Proofs.Engine.Period
import DonationLedger.Proofs.Shape.Lawful

namespace DonationLedger

namespace Migration

variable {held : Except Fault (List Coin)} {registry : Registry} {t : VersionTag}
  {m : MigrateMessage} {s s' : Session}

def planned (registry : Registry) (t stored : VersionTag) : Except Fault (List Upgrade) :=
  if stored.contract ≠ t.contract then
    .error (.refusal (.identityMismatch stored.contract t.contract))
  else if stored.version = t.version then .ok []
  else registry.chainFrom stored.version t.version

theorem planned_own (registry : Registry) (t : VersionTag) : planned registry t t = .ok [] := by
  rw [planned, if_neg (not_not_intro rfl), if_pos rfl]

theorem plan_run (held : Except Fault (List Coin)) (registry : Registry) (t : VersionTag)
    (s : Session) :
    (plan registry t).run held s
      = ((VersionTag.slot.found (s.store.get VersionTag.slot.bytes)).bind (planned registry t),
        s) := by
  rw [plan, Action.run_bind, Slot.load_run]
  cases VersionTag.slot.found (s.store.get VersionTag.slot.bytes) with
  | error f => rfl
  | ok stored =>
      simp only [Except.bind, planned]
      split
      · rfl
      · split <;> rfl

theorem applyAll_run_cons (held : Except Fault (List Coin)) (m : MigrateMessage) (u : Upgrade)
    (us : List Upgrade) (response : Response) (progress : Progress) (s : Session) :
    (applyAll m (u :: us) response progress).run held s
      = match (u.handler m).run held { s with trace := s.trace ++ [line u] } with
        | (.error f, s₁) => ((.error f, progress.stopped f), s₁)
        | (.ok r, s₁) =>
            (applyAll m us (response.append r)
              { progress with applied := progress.applied ++ [u.source] }).run held s₁ := by
  rw [applyAll, Program.run, Program.bind_eq, Program.run_bind]
  unfold Action.run
  cases (u.handler m).program.run held { s with trace := s.trace ++ [line u] } with
  | mk x s₁ => cases x <;> rfl

theorem finish_run (held : Except Fault (List Coin)) (t : VersionTag) (response : Response)
    (progress : Progress) (s : Session) :
    (finish t response progress).run held s
      = match (VersionTag.slot.save t).run held s with
        | (.error f, s₁) => ((.error f, progress), s₁)
        | (.ok _, s₁) =>
            ((.ok (response.note "action" "migrate" |>.note "version" t.version),
              { progress with status := .complete }), s₁) := by
  rw [finish, Program.bind_eq, Program.run_bind]
  unfold Action.run
  cases (VersionTag.slot.save t).program.run held s with
  | mk x s₁ => cases x <;> rfl

theorem migrate_run (held : Except Fault (List Coin)) (registry : Registry) (t : VersionTag)
    (m : MigrateMessage) (s : Session) :
    (migrate registry t m).run held s
      = match (VersionTag.slot.found (s.store.get VersionTag.slot.bytes)).bind
          (planned registry t) with
        | .error f => ((.error f, Progress.start.stopped f), s)
        | .ok [] => ((.ok Response.empty, { Progress.start with status := .complete }), s)
        | .ok (u :: us) =>
            match (applyAll m (u :: us) Response.empty
              { Progress.start with status := .inProgress }).run held s with
            | ((.error f, progress), s₁) => ((.error f, progress), s₁)
            | ((.ok response, progress), s₁) => (finish t response progress).run held s₁ := by
  have hplan := plan_run held registry t s
  unfold Action.run at hplan
  rw [migrate, Program.bind_eq, Program.run_bind, hplan]
  cases (VersionTag.slot.found (s.store.get VersionTag.slot.bytes)).bind (planned registry t) with
  | error f => rfl
  | ok chain =>
      cases chain with
      | nil => rfl
      | cons u us =>
          dsimp only
          rw [Program.bind_eq, Program.run_bind]
          cases (applyAll m (u :: us) Response.empty
            { Progress.start with status := .inProgress }).run held s with
          | mk x s₁ =>
              obtain ⟨a, progress⟩ := x
              cases a <;> rfl

def UpToDate (registry : Registry) (t : VersionTag) (s : Store) : Prop :=
  (VersionTag.slot.found (s.get VersionTag.slot.bytes)).bind (planned registry t) = .ok []

theorem UpToDate.of_get {s s' : Store} (h : UpToDate registry t s)
    (hget : s'.get VersionTag.slot.bytes = s.get VersionTag.slot.bytes) :
    UpToDate registry t s' := by
  rw [UpToDate, hget]
  exact h

theorem UpToDate.of_encode {s : Store} {b : Bytes} (hb : VersionTag.slot.encode t = .ok b)
    (hget : s.get VersionTag.slot.bytes = .ok (some b)) : UpToDate registry t s := by
  rw [UpToDate, hget]
  simp only [Slot.found, Slot.decode_of_encode VersionTag.shape_lawful hb, Except.bind,
    planned_own]

theorem UpToDate.migrate_run (h : UpToDate registry t s.store) (held : Except Fault (List Coin))
    (m : MigrateMessage) :
    (migrate registry t m).run held s
      = ((.ok Response.empty, { Progress.start with status := .complete }), s) := by
  rw [UpToDate] at h
  rw [Migration.migrate_run, h]

theorem upToDate_of_finish {response r : Response} {progress p : Progress}
    (h : (finish t response progress).run held s = ((.ok r, p), s')) :
    UpToDate registry t s'.store := by
  rw [finish_run] at h
  cases hsave : (VersionTag.slot.save t).run held s with
  | mk a s₁ =>
      rw [hsave] at h
      cases a with
      | error f => cases h
      | ok u =>
          obtain ⟨b, hb, hget⟩ := Slot.save_run_ok hsave
          cases h
          exact .of_encode hb hget

theorem migrate_run_ok {r : Response} {p : Progress}
    (h : (migrate registry t m).run held s = ((.ok r, p), s')) :
    (UpToDate registry t s.store ∧ s' = s)
      ∨ ∃ u us response q s₁, (applyAll m (u :: us) Response.empty
          { Progress.start with status := .inProgress }).run held s = ((.ok response, q), s₁)
        ∧ (finish t response q).run held s₁ = ((.ok r, p), s') := by
  rw [migrate_run] at h
  cases hchain : (VersionTag.slot.found (s.store.get VersionTag.slot.bytes)).bind
      (planned registry t) with
  | error f =>
      rw [hchain] at h
      cases h
  | ok chain =>
      rw [hchain] at h
      cases chain with
      | nil =>
          cases h
          exact .inl ⟨hchain, rfl⟩
      | cons u us =>
          dsimp only at h
          cases ha : (applyAll m (u :: us) Response.empty
              { Progress.start with status := .inProgress }).run held s with
          | mk a s₁ =>
              rw [ha] at h
              obtain ⟨a, q⟩ := a
              cases a with
              | error f => cases h
              | ok response => exact .inr ⟨u, us, response, q, s₁, ha, h⟩

theorem upToDate_of_migrate {r : Response} {p : Progress}
    (h : (migrate registry t m).run held s = ((.ok r, p), s')) :
    UpToDate registry t s'.store := by
  rcases migrate_run_ok h with ⟨hup, rfl⟩ | ⟨u, us, response, q, s₁, -, hfinish⟩
  · exact hup
  · exact upToDate_of_finish hfinish

end Migration

namespace Engine

open Migration (UpToDate)

variable {e : Engine} {held : Except Fault (List Coin)} {payload : Json} {s s' : Session}

theorem migration_run_ok {r : Response} {p : Migration.Progress}
    (h : (e.migration payload).run held s = ((.ok r, p), s')) :
    ∃ m, (Migration.migrate e.registry e.tag m).run held s = ((.ok r, p), s') := by
  unfold migration at h
  cases hm : Family.migrate.parse MigrateMessage.ofJson? payload with
  | error f =>
      rw [hm] at h
      cases h
  | ok m =>
      rw [hm] at h
      exact ⟨m, h⟩

theorem upToDate_of_migrate {reply : Reply} (h : e.migrate held payload s = (.ok reply, s'))
    (hok : reply.isOk = true) : UpToDate e.registry e.tag s'.store := by
  obtain ⟨r, p, t, hrun, -, hget⟩ := reply_eq_ok h hok
  obtain ⟨m, hm⟩ := migration_run_ok hrun
  exact (Migration.upToDate_of_migrate hm).of_get (hget _)

theorem migrate_twice {reply : Reply} (h : e.migrate held payload s = (.ok reply, s'))
    (hok : reply.isOk = true) {again : Json} {m : MigrateMessage}
    (hm : MigrateMessage.ofJson? again = some m) (held' : Except Fault (List Coin))
    (trace : List String) :
    e.migrate held' again ⟨s'.store, trace⟩
      = (.ok ⟨.ok (some Response.empty), migrationData .complete []⟩,
        ⟨s'.store, trace ++ [e.okLine .migrate]⟩) := by
  have hup : UpToDate e.registry e.tag s'.store.overlayOf :=
    (upToDate_of_migrate h hok).of_get rfl
  have hparse : Family.migrate.parse MigrateMessage.ofJson? again = .ok m := by
    rw [Family.parse, hm]
  have hrun : (e.migration again).run held' ⟨s'.store.overlayOf, trace⟩
      = ((.ok Response.empty, { Migration.Progress.start with status := .complete }),
        ⟨s'.store.overlayOf, trace⟩) := by
    rw [migration, hparse]
    exact UpToDate.migrate_run (s := ⟨s'.store.overlayOf, trace⟩) hup held' m
  have hidle : e.transact .migrate held' (e.migration again) ⟨s'.store, trace⟩ = _ :=
    transact_idle hrun
  rw [migrate, hidle]
  rfl

theorem migrate_twice_from_folded :
    let old := Content.ofList [
      (PlainState.slot.bytes,
        (PlainState.shape.write ⟨7, ⟨"atom", 10⟩, "owner"⟩).toBytes),
      (VersionTag.slot.bytes,
        (VersionTag.shape.write ⟨"counting-contract", "0.2.0"⟩).toBytes)]
    let again := Json.obj [("parent", .obj [
      ("addr", .str ""), ("donating_period", .int 0), ("part", .str "7")])]
    ∃ reply s', current.migrate (.ok []) (.obj []) ⟨.memory old, []⟩ = (.ok reply, s')
      ∧ reply.isOk = true
      ∧ s'.trace = ["[migrate] 0.2.0 -> 0.3.0", "[counting-contract] migrate ok"]
      ∧ (MigrateMessage.ofJson? again).isSome = true
      ∧ current.migrate (.ok []) again s'
        = (.ok ⟨.ok (some Response.empty), migrationData .complete []⟩,
          ⟨s'.store, s'.trace ++ [current.okLine .migrate]⟩) := by
  intro old again
  have hparse : (MigrateMessage.ofJson? again).isSome = true := by decide +kernel
  obtain ⟨m, hm⟩ := Option.isSome_iff_exists.1 hparse
  have hok : (current.migrate (.ok []) (.obj []) ⟨.memory old, []⟩).1.toOption.map Reply.isOk
      = some true := by decide +kernel
  have htrace : (current.migrate (.ok []) (.obj []) ⟨.memory old, []⟩).2.trace
      = ["[migrate] 0.2.0 -> 0.3.0", "[counting-contract] migrate ok"] := by decide +kernel
  cases hx : current.migrate (.ok []) (.obj []) ⟨.memory old, []⟩ with
  | mk x s' =>
      rw [hx] at hok htrace
      cases x with
      | error f => cases hok
      | ok reply =>
          have hdone : reply.isOk = true := Option.some.inj hok
          exact ⟨reply, s', rfl, hdone, htrace, hparse,
            migrate_twice hx hdone hm (.ok []) s'.trace⟩

end Engine

end DonationLedger
