import DonationLedger.Proofs.Migration.Chain
import DonationLedger.Proofs.Migration.Repeat

namespace DonationLedger

def VersionTag.Stored (t : VersionTag) (s : Store) : Prop :=
  VersionTag.slot.found (s.get VersionTag.slot.bytes) = .ok t

theorem VersionTag.Stored.of_get {t : VersionTag} {s s' : Store} (h : t.Stored s)
    (hget : s'.get VersionTag.slot.bytes = s.get VersionTag.slot.bytes) : t.Stored s' := by
  rw [Stored, hget]
  exact h

variable {held : Except Fault (List Coin)} {s s' : Session}

theorem stored_of_instantiate {caller : Caller} {m : InstantiateMessage} {r : Response}
    (h : (instantiate caller m).run held s = (.ok r, s')) : VersionTag.current.Stored s'.store := by
  obtain ⟨n, s₁, -, h₁⟩ := Action.bind_run_ok h
  obtain ⟨u, s₂, h₂, h₃⟩ := Action.bind_run_ok h₁
  obtain ⟨v, s₃, h₄, h₅⟩ := Action.bind_run_ok h₃
  obtain ⟨-, rfl⟩ := Prod.mk.inj h₅
  obtain ⟨b, hb, hget⟩ := Slot.save_run_ok h₂
  obtain ⟨b', -, hput⟩ := Slot.saveJson_run_ok h₄
  have hkept := Store.get_of_put hput VersionTag.slot.bytes
  rw [if_neg stateKey_ne_tagKey, hget] at hkept
  rw [VersionTag.Stored, hkept]
  exact Slot.decode_of_encode VersionTag.shape_lawful hb

namespace Migration

variable {registry : Registry} {t stored : VersionTag} {m : MigrateMessage}

theorem chainFrom_ne_nil {label target : String} {chain : List Upgrade} (hne : label ≠ target)
    (h : registry.chainFrom label target = .ok chain) : chain ≠ [] := by
  unfold Registry.chainFrom at h
  split at h
  · next u chain' hu hpath =>
      obtain rfl := Except.ok.inj h
      rw [Registry.path?_step hne hu] at hpath
      obtain ⟨rest, -, rfl⟩ := Option.map_eq_some_iff.1 hpath
      exact List.cons_ne_nil u rest
  · cases h

theorem planned_nil_iff : planned registry t stored = .ok [] ↔ stored = t := by
  refine ⟨fun h => ?_, fun h => h ▸ planned_own registry t⟩
  unfold planned at h
  split at h
  · cases h
  · next hcontract =>
      split at h
      · next hversion =>
          have hname := Decidable.byContradiction hcontract
          cases stored
          cases t
          exact (VersionTag.mk.injEq ..).mpr ⟨hname, hversion⟩
      · next hversion => exact absurd rfl (chainFrom_ne_nil hversion h)

theorem upToDate_iff {s : Store} (h : stored.Stored s) : UpToDate registry t s ↔ stored = t := by
  rw [UpToDate, h]
  exact planned_nil_iff

theorem applyAll_run_applied {us : List Upgrade} {response r : Response} {progress p : Progress}
    (h : (applyAll m us response progress).run held s = ((.ok r, p), s')) :
    p.applied = progress.applied ++ us.map Upgrade.source := by
  induction us generalizing response progress s with
  | nil =>
      obtain ⟨hr, -⟩ := Prod.mk.inj h
      obtain ⟨-, rfl⟩ := Prod.mk.inj hr
      rw [List.map_nil, List.append_nil]
  | cons u us ih =>
      rw [applyAll_run_cons] at h
      cases hu : (u.handler m).run held { s with trace := s.trace ++ [line u] } with
      | mk a s₁ =>
          rw [hu] at h
          cases a with
          | error f => cases h
          | ok t =>
              rw [ih h, List.map_cons, List.append_assoc]
              rfl

theorem finish_run_applied {response r : Response} {progress p : Progress}
    (h : (finish t response progress).run held s = ((.ok r, p), s')) :
    p.applied = progress.applied := by
  rw [finish_run] at h
  cases hsave : (VersionTag.slot.save t).run held s with
  | mk a s₁ =>
      rw [hsave] at h
      cases a with
      | error f => cases h
      | ok u =>
          cases h
          rfl

theorem upToDate_of_unapplied {r : Response} {p : Progress}
    (h : (migrate registry t m).run held s = ((.ok r, p), s')) (hnone : p.applied = []) :
    UpToDate registry t s.store := by
  rcases migrate_run_ok h with ⟨hup, -⟩ | ⟨u, us, response, q, s₁, happlied, hfinish⟩
  · exact hup
  · cases hnone.symm.trans ((finish_run_applied hfinish).trans (applyAll_run_applied happlied))

theorem migrate_run_mismatch (h : stored.Stored s.store) (hne : stored.contract ≠ t.contract) :
    (migrate registry t m).run held s
      = ((.error (.refusal (.identityMismatch stored.contract t.contract)),
          ⟨.rejected, [], some (.identityMismatch stored.contract t.contract)⟩), s) := by
  rw [migrate_run, h, Except.bind, planned, if_pos hne]
  rfl

end Migration

namespace Engine

open Migration (UpToDate)

variable {e : Engine} {caller : Caller} {payload : Json} {reply : Reply}

theorem handling_run_ok {α : Type} {entry : Family} {read : Json → Option α}
    {handler : α → Action Response} {r : Response}
    (h : (handling entry read handler payload).run held s = ((.ok r, ()), s')) :
    ∃ m, read payload = some m ∧ (handler m).run held s = (.ok r, s') := by
  have ha : ((do
      let m ← Action.ofExcept (entry.parse read payload)
      handler m) : Action Response).run held s = (.ok r, s') := by
    rw [handling, Program.run_map] at h
    have hr := congrArg (fun x => x.1.1) h
    have hs := congrArg Prod.snd h
    exact Prod.ext hr hs
  obtain ⟨m, s₁, h₁, h₂⟩ := Action.bind_run_ok ha
  obtain ⟨hm, rfl⟩ := Prod.mk.inj h₁
  unfold Family.parse at hm
  split at hm
  · next m' hm' => exact ⟨m, by rw [hm', Except.ok.inj hm], h₂⟩
  · cases hm

theorem stored_of_creation (h : e.instantiate held caller payload s = (.ok reply, s'))
    (hok : reply.isOk = true) : VersionTag.current.Stored s'.store := by
  obtain ⟨r, u, t, hrun, -, hget⟩ := reply_eq_ok h hok
  obtain ⟨m, -, hm⟩ := handling_run_ok hrun
  exact (stored_of_instantiate hm).of_get (hget _)

theorem upToDate_of_unapplied {response : Option Response} {status : Migration.Status}
    (h : e.migrate held payload s = (.ok ⟨.ok response, migrationData status []⟩, s')) :
    UpToDate e.registry e.tag s.store := by
  obtain ⟨r, p, t, hrun, hreply, -⟩ := reply_eq_ok h rfl
  have hnone : p.applied = [] := by
    have hdata := congrArg Reply.data hreply
    simp [migrationData, Except.toBool] at hdata
    exact hdata.2
  obtain ⟨m, hm⟩ := migration_run_ok hrun
  exact (Migration.upToDate_of_unapplied hm hnone).of_get rfl

theorem own_migration (h : e.instantiate held caller payload s = (.ok reply, s'))
    (hok : reply.isOk = true) {again : Json} {m : MigrateMessage}
    (hm : MigrateMessage.ofJson? again = some m) (held' : Except Fault (List Coin))
    (trace : List String) :
    (e.tag = VersionTag.current →
        e.migrate held' again ⟨s'.store, trace⟩
          = (.ok ⟨.ok (some Response.empty), migrationData .complete []⟩,
            ⟨s'.store, trace ++ [e.okLine .migrate]⟩))
      ∧ (∀ response status s'', e.migrate held' again ⟨s'.store, trace⟩
          = (.ok ⟨.ok response, migrationData status []⟩, s'') → e.tag = VersionTag.current)
      ∧ (e.name ≠ VersionTag.current.contract →
        let f := Fault.refusal (.identityMismatch VersionTag.current.contract e.name)
        e.migrate held' again ⟨s'.store, trace⟩
          = (.ok ⟨.error f.failure, migrationData .rejected []⟩,
            ⟨s'.store, trace ++ [e.failedLine .migrate f]⟩)) := by
  have hstored := stored_of_creation h hok
  have hoverlay : VersionTag.current.Stored s'.store.overlayOf := hstored.of_get rfl
  have hparse : Family.migrate.parse MigrateMessage.ofJson? again = .ok m := by
    rw [Family.parse, hm]
  refine ⟨fun htag => ?_, fun response status s'' hrun => ?_, fun hname => ?_⟩
  · have hup : UpToDate e.registry e.tag s'.store.overlayOf :=
      (Migration.upToDate_iff hoverlay).2 htag.symm
    have hrun : (e.migration again).run held' ⟨s'.store.overlayOf, trace⟩
        = ((.ok Response.empty, { Migration.Progress.start with status := .complete }),
          ⟨s'.store.overlayOf, trace⟩) := by
      rw [migration, hparse]
      exact UpToDate.migrate_run (s := ⟨s'.store.overlayOf, trace⟩) hup held' m
    have hidle : e.transact .migrate held' (e.migration again) ⟨s'.store, trace⟩ = _ :=
      transact_idle hrun
    rw [migrate, hidle]
    rfl
  · have hup : UpToDate e.registry e.tag s'.store :=
      upToDate_of_unapplied (s := ⟨s'.store, trace⟩) hrun
    exact ((Migration.upToDate_iff hstored).1 hup).symm
  · have hrun : (e.migration again).run held' ⟨s'.store.overlayOf, trace⟩
        = ((.error (.refusal (.identityMismatch VersionTag.current.contract e.name)),
            ⟨.rejected, [], some (.identityMismatch VersionTag.current.contract e.name)⟩),
          ⟨s'.store.overlayOf, trace⟩) := by
      rw [migration, hparse]
      exact Migration.migrate_run_mismatch (s := ⟨s'.store.overlayOf, trace⟩) (t := e.tag) hoverlay
        (Ne.symm hname)
    have hrefused : e.transact .migrate held' (e.migration again) ⟨s'.store, trace⟩ = _ :=
      transact_refused hrun
    intro f
    rw [migrate, hrefused]
    rfl

theorem own_migration_renamed :
    let renamed : Engine := { current with name := "other-contract" }
    let creation := Json.obj [
      ("minimal_donation", .obj [("denom", .str "atom"), ("amount", .int 10)])]
    let f := Fault.refusal (.identityMismatch VersionTag.current.contract renamed.name)
    ∃ reply s', renamed.instantiate (.ok []) ⟨"owner", []⟩ creation ⟨.memory .empty, []⟩
        = (.ok reply, s')
      ∧ reply.isOk = true
      ∧ (MigrateMessage.ofJson? (.obj [])).isSome = true
      ∧ renamed.name ≠ VersionTag.current.contract
      ∧ renamed.migrate (.ok []) (.obj []) ⟨s'.store, s'.trace⟩
        = (.ok ⟨.error f.failure, migrationData .rejected []⟩,
          ⟨s'.store, s'.trace ++ [renamed.failedLine .migrate f]⟩) := by
  intro renamed creation f
  have hparse : (MigrateMessage.ofJson? (.obj [])).isSome = true := by decide +kernel
  obtain ⟨m, hm⟩ := Option.isSome_iff_exists.1 hparse
  have hname : renamed.name ≠ VersionTag.current.contract := by decide +kernel
  have hok : (renamed.instantiate (.ok []) ⟨"owner", []⟩ creation
      ⟨.memory .empty, []⟩).1.toOption.map Reply.isOk = some true := by decide +kernel
  cases hx : renamed.instantiate (.ok []) ⟨"owner", []⟩ creation ⟨.memory .empty, []⟩ with
  | mk x s' =>
      rw [hx] at hok
      cases x with
      | error g => cases hok
      | ok reply =>
          have hdone : reply.isOk = true := Option.some.inj hok
          exact ⟨reply, s', rfl, hdone, hparse, hname,
            (own_migration hx hdone hm (.ok []) s'.trace).2.2 hname⟩

theorem own_contract_not_upToDate :
    ¬ ∀ (e : Engine) (caller : Caller) (payload again : Json) (c : Content),
      let created := e.instantiate (.ok []) caller payload ⟨.memory c, []⟩
      created.1.toOption.map Reply.isOk = some true →
      (MigrateMessage.ofJson? again).isSome = true →
      (e.migrate (.ok []) again created.2).1.toOption.map Reply.isOk = some true := by
  intro h
  have hrenamed := h { current with name := "other-contract" } ⟨"owner", []⟩
    (.obj [("minimal_donation", .obj [("denom", .str "atom"), ("amount", .int 10)])]) (.obj [])
    .empty (by decide +kernel) (by decide +kernel)
  exact absurd hrenamed (by decide +kernel)

end Engine

end DonationLedger
