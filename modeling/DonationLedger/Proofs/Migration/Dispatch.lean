import DonationLedger.Proofs.Contract.Handlers
import DonationLedger.Proofs.Engine.Transaction
import DonationLedger.Proofs.Migration.Chain
import DonationLedger.Proofs.Shape.Writable

namespace DonationLedger

def Response.concat (rs : List Response) : Response :=
  ⟨rs.flatMap Response.effects, rs.flatMap Response.attributes⟩

theorem Response.append_concat_cons (r t : Response) (rs : List Response) :
    (r.append t).append (concat rs) = r.append (concat (t :: rs)) := by
  simp only [append, concat, List.flatMap_cons, List.append_assoc]

namespace Migration

variable {held : Except Fault (List Coin)} {m : MigrateMessage}

inductive Applied (held : Except Fault (List Coin)) (m : MigrateMessage) :
    List Upgrade → Page → List Response → Page → Prop where
  | done (g : Page) : Applied held m [] g [] g
  | upgrade {u : Upgrade} {us : List Upgrade} {g g₁ g' : Page} {r : Response} {rs : List Response}
      (hu : (u.handler m).eval held { g with trace := g.trace ++ [line u] } = (.ok r, g₁))
      (h : Applied held m us g₁ rs g') : Applied held m (u :: us) g (r :: rs) g'

theorem applyAll_eval_ok {us : List Upgrade} {response r : Response} {progress p : Progress}
    {g g' : Page} (h : (applyAll m us response progress).eval held g = ((.ok r, p), g')) :
    ∃ rs, Applied held m us g rs g' ∧ r = response.append (.concat rs)
      ∧ p = { progress with applied := progress.applied ++ us.map Upgrade.source } := by
  induction us generalizing response progress g with
  | nil =>
      obtain ⟨hr, rfl⟩ := Prod.mk.inj h
      obtain ⟨hresponse, rfl⟩ := Prod.mk.inj hr
      obtain rfl := Except.ok.inj hresponse
      exact ⟨[], .done g, by simp [Response.append, Response.concat], by simp⟩
  | cons u us ih =>
      rw [applyAll, Program.eval, Program.bind_eq, Program.eval_bind] at h
      cases hu : (u.handler m).program.eval held { g with trace := g.trace ++ [line u] } with
      | mk a g₁ =>
          rw [hu] at h
          cases a with
          | error f => cases h
          | ok t =>
              obtain ⟨rs, hrs, hr, hp⟩ := ih h
              refine ⟨t :: rs, .upgrade hu hrs, ?_, ?_⟩
              · rw [hr, Response.append_concat_cons]
              · rw [hp, List.map_cons, List.append_assoc]
                rfl

theorem finish_eval {t : VersionTag} {b : Bytes} (hb : VersionTag.slot.encode t = .ok b)
    (response : Response) (progress : Progress) (g : Page) :
    (finish t response progress).eval held g
      = ((.ok (response.note "action" "migrate" |>.note "version" t.version),
          { progress with status := .complete }),
        { g with content := g.content.insert VersionTag.slot.bytes b }) := by
  have hs : (VersionTag.slot.save t).program.eval held g
      = (.ok (), { g with content := g.content.insert VersionTag.slot.bytes b }) := by
    have := VersionTag.slot.eval_save held g t
    rwa [hb] at this
  rw [finish, Program.bind_eq, Program.eval_bind, hs]
  rfl

variable {registry : Registry} {t stored : VersionTag} {g : Page}

theorem plan_mismatch (hs : VersionTag.slot.loaded g.content = .ok stored)
    (hc : stored.contract ≠ t.contract) :
    (plan registry t).program.eval held g
      = (.error (.refusal (.identityMismatch stored.contract t.contract)), g) := by
  refine (Action.eval_bind_ok held (VersionTag.slot.eval_load_of_loaded held hs)).trans ?_
  rw [if_pos hc]
  rfl

theorem plan_chain (hs : VersionTag.slot.loaded g.content = .ok stored)
    (hc : stored.contract = t.contract) (hv : stored.version ≠ t.version) :
    (plan registry t).program.eval held g
      = (registry.chainFrom stored.version t.version, g) := by
  refine (Action.eval_bind_ok held (VersionTag.slot.eval_load_of_loaded held hs)).trans ?_
  rw [if_neg (not_not_intro hc), if_neg hv]
  rfl

theorem migrate_eval_refused {r : Refusal}
    (hp : (plan registry t).program.eval held g = (.error (.refusal r), g)) :
    (migrate registry t m).eval held g
      = ((.error (.refusal r), ⟨.rejected, [], some r⟩), g) := by
  rw [migrate, Program.bind_eq, Program.eval_bind, hp]
  rfl

theorem migrate_eval_chain {chain : List Upgrade} {r : Response} {p : Progress} {g' : Page}
    (hp : (plan registry t).program.eval held g = (.ok chain, g)) (hne : chain ≠ [])
    (h : (migrate registry t m).eval held g = ((.ok r, p), g')) :
    ∃ rs g₁, Applied held m chain g rs g₁
      ∧ (finish t (.concat rs) ⟨.inProgress, chain.map Upgrade.source, none⟩).eval held g₁
        = ((.ok r, p), g') := by
  rw [migrate, Program.bind_eq, Program.eval_bind, hp] at h
  cases chain with
  | nil => exact absurd rfl hne
  | cons u us =>
      dsimp only at h
      rw [Program.bind_eq, Program.eval_bind] at h
      cases ha : (applyAll m (u :: us) Response.empty
          { Progress.start with status := .inProgress }).eval held g with
      | mk a g₁ =>
          rw [ha] at h
          obtain ⟨a, q⟩ := a
          cases a with
          | error f => cases h
          | ok response =>
              obtain ⟨rs, hrs, hr, hq⟩ := applyAll_eval_ok ha
              rw [hr, hq] at h
              exact ⟨rs, g₁, hrs, h⟩

end Migration

namespace Engine

open Migration (Applied)
open Version (Below)

variable {e : Engine} {held : Except Fault (List Coin)} {payload : Json} {m : MigrateMessage}
  {stored : VersionTag}

structure Moved (e : Engine) (held : Except Fault (List Coin)) (m : MigrateMessage)
    (stored : VersionTag) (chain : List Upgrade) (g : Page) (rs : List Response) (g' : Page)
    (reply : Reply) (s : Session) : Prop where
  name : stored.contract = e.name
  leads : e.registry.Leads e.version stored.version chain
  applied : Applied held m chain g rs g'
  answer : reply.answer
    = .ok (some ((Response.concat rs).note "action" "migrate" |>.note "version" e.version))
  data : reply.data = migrationData .complete (chain.map Upgrade.source)
  tag : VersionTag.slot.loaded s.store.content = .ok e.tag
  frame : ∀ k, k ≠ VersionTag.slot.bytes → s.store.content.get? k = g'.content.get? k
  trace : s.trace = g'.trace ++ [e.okLine .migrate]

/-- A stored tag that a build cannot start from. -/
def Bars (e : Engine) (stored : VersionTag) : Prop :=
  stored.contract ≠ e.name
    ∨ (∀ chain, ¬e.registry.Leads e.version stored.version chain)
    ∨ (stored.version ≠ e.version ∧ ¬Below stored.version e.version)

def barriers (e : Engine) (stored : VersionTag) : List (Refusal × Migration.Status) :=
  [(.invalidMessage Family.migrate.name shapeReport, .pending),
    (.identityMismatch stored.contract e.name, .rejected),
    (.unsupportedVersion stored.version, .rejected)]

theorem migration_eval_moved (hb : e.registry.Built) {g g'' : Page}
    (hs : VersionTag.slot.loaded g.content = .ok stored) (hne : stored.version ≠ e.version)
    {r : Response} {p : Migration.Progress}
    (h : (e.migration payload).eval held g = ((.ok r, p), g'')) :
    ∃ m chain rs g', MigrateMessage.ofJson? payload = some m
      ∧ stored.contract = e.name
      ∧ e.registry.Leads e.version stored.version chain
      ∧ Applied held m chain g rs g'
      ∧ (Migration.finish e.tag (.concat rs) ⟨.inProgress, chain.map Upgrade.source, none⟩).eval
          held g' = ((.ok r, p), g'') := by
  cases hm : MigrateMessage.ofJson? payload with
  | none =>
      simp only [migration, Family.parse, hm] at h
      cases h
  | some m =>
      simp only [migration, Family.parse, hm] at h
      by_cases hname : stored.contract = e.name
      · have hp : (Migration.plan e.registry e.tag).program.eval held g
            = (e.registry.chainFrom stored.version e.tag.version, g) :=
          Migration.plan_chain hs hname hne
        cases hc : e.registry.chainFrom stored.version e.tag.version with
        | error f =>
            rw [Migration.migrate, Program.bind_eq, Program.eval_bind, hp, hc] at h
            cases h
        | ok chain =>
            have hleads := Registry.leads_of_chainFrom hb.forward hc
            rw [hc] at hp
            obtain ⟨rs, g', hrs, hf⟩ := Migration.migrate_eval_chain hp (hleads.ne_nil hne) h
            exact ⟨m, chain, rs, g', rfl, hname, hleads, hrs, hf⟩
      · rw [Migration.migrate_eval_refused (Migration.plan_mismatch hs hname)] at h
        cases h

variable (held payload) in
theorem migration_eval_barred (hb : e.registry.Built) {g : Page}
    (hs : VersionTag.slot.loaded g.content = .ok stored) (hbar : e.Bars stored) :
    ∃ r status refusal, (r, status) ∈ e.barriers stored
      ∧ (e.migration payload).eval held g = ((.error (.refusal r), ⟨status, [], refusal⟩), g) := by
  cases hm : MigrateMessage.ofJson? payload with
  | none =>
      refine ⟨.invalidMessage Family.migrate.name shapeReport, .pending, none,
        List.mem_cons_self .., ?_⟩
      simp only [migration, Family.parse, hm]
      rfl
  | some m =>
      simp only [migration, Family.parse, hm]
      by_cases hname : stored.contract = e.name
      · have hlead : ∀ chain, ¬e.registry.Leads e.version stored.version chain := by
          intro chain hl
          rcases hbar with hc | hn | ⟨hne, hbelow⟩
          · exact hc hname
          · exact hn chain hl
          · exact (hl.ordered hb.forward).elim hne hbelow
        have hne : stored.version ≠ e.version := fun hv => hlead [] (hv ▸ .here)
        have hp : (Migration.plan e.registry e.tag).program.eval held g
            = (e.registry.chainFrom stored.version e.version, g) :=
          Migration.plan_chain hs hname hne
        rw [Registry.chainFrom_error hb.forward hlead] at hp
        exact ⟨_, .rejected, _, by simp [barriers], Migration.migrate_eval_refused hp⟩
      · exact ⟨_, .rejected, _, by simp [barriers, tag],
          Migration.migrate_eval_refused (Migration.plan_mismatch hs hname)⟩

theorem migrate_memory (e : Engine) (held : Except Fault (List Coin)) (payload : Json)
    (c : Content) (trace : List String) :
    e.migrate held payload ⟨.memory c, trace⟩
      = (.ok (migrationReply ((e.migration payload).eval held ⟨c, trace⟩).1),
        ⟨.memory (settled c ((e.migration payload).eval held ⟨c, trace⟩).1.1
            ((e.migration payload).eval held ⟨c, trace⟩).2.content),
          ((e.migration payload).eval held ⟨c, trace⟩).2.trace
            ++ [e.closingLine .migrate ((e.migration payload).eval held ⟨c, trace⟩).1.1]⟩) := by
  rw [migrate, transact_memory]
  rfl

theorem migration_follows_chain (e : Engine) (hb : e.registry.Built)
    (held : Except Fault (List Coin)) (payload : Json) (c : Content) (trace : List String)
    {stored : VersionTag} (hs : VersionTag.slot.loaded c = .ok stored) :
    ∃ reply s, e.migrate held payload ⟨.memory c, trace⟩ = (.ok reply, s)
      ∧ (stored.version ≠ e.version → ∀ r, reply.answer = .ok r →
          ∃ m chain rs g', MigrateMessage.ofJson? payload = some m
            ∧ e.Moved held m stored chain ⟨c, trace⟩ rs g' reply s)
      ∧ (e.Bars stored →
          ∃ r status, (r, status) ∈ e.barriers stored
            ∧ reply = ⟨.error (Fault.refusal r).failure, migrationData status []⟩
            ∧ s = ⟨.memory c, trace ++ [e.failedLine .migrate (.refusal r)]⟩) := by
  refine ⟨_, _, migrate_memory e held payload c trace, fun hne r hr => ?_, fun hbar => ?_⟩
  · cases he : (e.migration payload).eval held ⟨c, trace⟩ with
    | mk a g'' =>
        obtain ⟨a, p⟩ := a
        cases a with
        | error f =>
            rw [he] at hr
            cases hr
        | ok response =>
            obtain ⟨m, chain, rs, g', hm, hname, hleads, hrs, hf⟩ :=
              migration_eval_moved hb hs hne he
            obtain ⟨b, hencode⟩ := VersionTag.encode_ok e.tag
            rw [Migration.finish_eval hencode] at hf
            rw [← hf]
            exact ⟨m, chain, rs, g', hm, {
              name := hname
              leads := hleads
              applied := hrs
              answer := rfl
              data := rfl
              tag := Slot.loaded_insert VersionTag.shape_lawful hencode g'.content
              frame := fun k hk => VersionTag.slot.get?_insert_ne hk g'.content b
              trace := rfl }⟩
  · obtain ⟨r, status, refusal, hmem, he⟩ := migration_eval_barred held payload hb
      (g := ⟨c, trace⟩) hs hbar
    rw [he]
    exact ⟨r, status, hmem, rfl, rfl⟩

theorem released_built : Upgrades.released.Built := by
  have fold : Registry.empty.register ⟨"0.1.0", "0.2.0", fun _ => Upgrades.foldSlots⟩
      = .ok ⟨[⟨"0.1.0", "0.2.0", fun _ => Upgrades.foldSlots⟩]⟩ := rfl
  have addCountdown : Registry.register
      ⟨[⟨"0.1.0", "0.2.0", fun _ => Upgrades.foldSlots⟩]⟩ ⟨"0.2.0", "0.3.0", Upgrades.addCountdown⟩
      = .ok Upgrades.released := rfl
  exact .register (.register .empty fold) addCountdown

theorem migration_follows_chain_released :
    let stored : VersionTag := ⟨"counting-contract", "0.2.0"⟩
    let c := Content.ofList [
      (PlainState.slot.bytes, (PlainState.shape.write ⟨3, ⟨"atom", 10⟩, "owner"⟩).toBytes),
      (VersionTag.slot.bytes, (VersionTag.shape.write stored).toBytes)]
    ∃ reply s, current.migrate (.ok []) (.obj []) ⟨.memory c, []⟩ = (.ok reply, s)
      ∧ ∃ m chain rs g', MigrateMessage.ofJson? (.obj []) = some m
        ∧ current.Moved (.ok []) m stored chain ⟨c, []⟩ rs g' reply s := by
  intro stored c
  have hs : VersionTag.slot.loaded c = .ok stored := eq_ok_of_toOption (by decide +kernel)
  have hok : ((current.migrate (.ok []) (.obj []) ⟨.memory c, []⟩).1.toOption.bind
      (·.answer.toOption)).isSome = true := by decide +kernel
  obtain ⟨reply, s, h, hmoved, -⟩ :=
    migration_follows_chain current released_built (.ok []) (.obj []) c [] hs
  rw [h] at hok
  cases hr : reply.answer with
  | error f =>
      simp [Except.toOption, hr] at hok
  | ok r => exact ⟨reply, s, h, hmoved (by decide) r hr⟩

end Engine

end DonationLedger
