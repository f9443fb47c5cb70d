import DonationLedger.Proofs.Engine.Period
import DonationLedger.Proofs.Migration.Applied

namespace DonationLedger

def Reply.handled (r : Reply) : Response :=
  match r.answer with
  | .ok (some t) => ⟨t.effects, t.attributes.dropLast.dropLast⟩
  | _ => Response.empty

namespace Engine

open Migration (Applied)
open Registry (Forward)

variable {e : Engine} {held : Except Fault (List Coin)} {payload : Json} {m : MigrateMessage}
  {version : String} {chain us vs : List Upgrade}

def stamped (e : Engine) (chain : List Upgrade) (c : Content) : Content :=
  match chain with
  | [] => c
  | _ :: _ => c.put VersionTag.slot.bytes (VersionTag.slot.encode e.tag).toOption

theorem stamped_eq_put (e : Engine) (chain : List Upgrade) (c : Content) :
    ∃ v, e.stamped chain c = c.put VersionTag.slot.bytes v := by
  cases chain with
  | nil => exact ⟨c.get? VersionTag.slot.bytes, (c.put_get? _).symm⟩
  | cons u us => exact ⟨_, rfl⟩

theorem stamped_resumed {c c₁ : Content} {v : Option Bytes}
    (hv : { e with version }.stamped us c₁ = c₁.put VersionTag.slot.bytes v)
    (hvs : vs = [] → version = e.version ∧ c = c₁) :
    e.stamped vs (c.put VersionTag.slot.bytes v) = e.stamped (us ++ vs) c := by
  cases vs with
  | nil =>
      obtain ⟨rfl, rfl⟩ := hvs rfl
      rw [List.append_nil]
      exact hv.symm
  | cons u vs =>
      rw [stamped, Content.put_put]
      cases us <;> rfl

theorem loaded_stamped (e : Engine) (hne : chain ≠ []) (c : Content) :
    VersionTag.slot.loaded (e.stamped chain c) = .ok e.tag := by
  obtain ⟨u, us, rfl⟩ := List.exists_cons_of_ne_nil hne
  obtain ⟨b, hb⟩ := VersionTag.encode_ok e.tag
  rw [stamped, hb]
  exact Slot.loaded_insert VersionTag.shape_lawful hb c

inductive Leg (e : Engine) (held : Except Fault (List Coin)) (m : MigrateMessage)
    (chain : List Upgrade) (g : Page) (reply : Reply) : Content → Prop where
  | applied {rs : List Response} {g' : Page} (hok : reply.isOk = true)
      (h : Applied held m chain g rs g') (hh : reply.handled = .concat rs) :
      Leg e held m chain g reply (e.stamped chain g'.content)
  | halted (hbad : reply.isOk = false) (h : ∀ rs g', ¬Applied held m chain g rs g') :
      Leg e held m chain g reply g.content

theorem Leg.tagged {g : Page} {reply : Reply} {c : Content} (h : e.Leg held m chain g reply c)
    (hok : reply.isOk = true) (hs : VersionTag.slot.loaded g.content = .ok ⟨e.name, version⟩)
    (hl : e.registry.Leads e.version version chain) :
    VersionTag.slot.loaded c = .ok e.tag := by
  cases h with
  | halted hbad _ => exact absurd (hbad.symm.trans hok) Bool.false_ne_true
  | applied _ happlied _ =>
      by_cases hne : chain = []
      · subst hne
        cases happlied
        cases hl
        exact hs
      · exact e.loaded_stamped hne _

variable (held) in
theorem migrate_leads (hf : Forward e.registry.upgrades) {s : Session}
    (ho : s.store.isOpen = true) (hm : MigrateMessage.ofJson? payload = some m)
    (hs : VersionTag.slot.loaded s.store.content = .ok ⟨e.name, version⟩)
    (hl : e.registry.Leads e.version version chain) :
    ∃ reply s', e.migrate held payload s = (.ok reply, s') ∧ s'.store.isOpen = true
      ∧ e.Leg held m chain s.page reply s'.store.content := by
  obtain ⟨s', hreply, hopen, hcontent⟩ := e.migrate_open held payload ho
  refine ⟨_, s', hreply, hopen, ?_⟩
  rw [migration_eval_message hm] at hcontent ⊢
  rw [hcontent]
  by_cases hne : chain = []
  · subst hne
    obtain rfl : version = e.version := by
      cases hl
      rfl
    rw [Migration.migrate_eval_current held m e.registry hs]
    exact .applied rfl (.done _) rfl
  · have hp : (Migration.plan e.registry e.tag).program.eval held s.page = (.ok chain, s.page) :=
      plan_leads hf hs hl hne
    obtain ⟨b, hb⟩ := VersionTag.encode_ok e.tag
    cases he : (Migration.migrate e.registry e.tag m).eval held s.page with
    | mk x g' =>
        obtain ⟨a, p⟩ := x
        cases a with
        | ok r =>
            obtain ⟨rs, g, hrs, hfinish⟩ := Migration.migrate_eval_chain hp hne he
            rw [Migration.finish_eval hb] at hfinish
            have hstamped : e.stamped chain g.content
                = g.content.insert VersionTag.slot.bytes b := by
              obtain ⟨u, us, rfl⟩ := List.exists_cons_of_ne_nil hne
              rw [stamped, hb]
              rfl
            rw [← hfinish]
            change e.Leg held m chain s.page _ (g.content.insert VersionTag.slot.bytes b)
            rw [← hstamped]
            refine .applied rfl hrs ?_
            simp [migrationReply, replyOf, Reply.handled, Response.note, Response.concat]
        | error f =>
            refine .halted rfl fun rs g hrs => ?_
            rw [Migration.migrate_eval_applied hp hne hrs, Migration.finish_eval hb] at he
            cases he

theorem migrate_unread (e : Engine) (held : Except Fault (List Coin)) {s : Session}
    (ho : s.store.isOpen = true) (hm : MigrateMessage.ofJson? payload = none) :
    ∃ reply s', e.migrate held payload s = (.ok reply, s') ∧ s'.store.isOpen = true
      ∧ reply.isOk = false := by
  obtain ⟨s', hreply, hopen, -⟩ := e.migrate_open held payload ho
  refine ⟨_, s', hreply, hopen, ?_⟩
  simp only [migration, Family.parse, hm]
  rfl

/-- Two legs come to what the direct migration does. -/
structure Rejoins (direct : Reply) (c : Content) (first second : Reply) (c₂ : Content) : Prop where
  isOk : direct.isOk = true ↔ first.isOk = true ∧ second.isOk = true
  content : direct.isOk = true → c₂ = c
  handled : direct.isOk = true → direct.handled = first.handled.append second.handled

theorem Rejoins.of_halted {direct first : Reply} (h : direct.isOk = false)
    (h₁ : first.isOk = false) (c : Content) (second : Reply) (c₂ : Content) :
    Rejoins direct c first second c₂ where
  isOk := by simp [h, h₁]
  content hok := by simp [h] at hok
  handled hok := by simp [h] at hok

theorem Leg.rejoins {direct first second : Reply} {c' c₂ : Content} {g g₁ : Page}
    {rs : List Response} {v : Option Bytes} {trace : List String}
    (hk : ∀ u ∈ vs, ∀ g, (u.handler m).Avoids held VersionTag.slot.bytes g)
    (h : e.Leg held m (us ++ vs) g direct c') (hok₁ : first.isOk = true)
    (h₁ : Applied held m us g rs g₁) (hh₁ : first.handled = .concat rs)
    (hv : { e with version }.stamped us g₁.content = g₁.content.put VersionTag.slot.bytes v)
    (h₂ : e.Leg held m vs ⟨g₁.content.put VersionTag.slot.bytes v, trace⟩ second c₂)
    (hvs : vs = [] → version = e.version) : Rejoins direct c' first second c₂ := by
  cases h with
  | @applied rs' g' hok h hh =>
      obtain ⟨rest, g₂, hrest, rfl, hcontent⟩ := h₁.resume hk h v trace
      cases h₂ with
      | halted hbad₂ hnone => exact absurd hrest (hnone rest g₂)
      | applied hok₂ h₂ hh₂ =>
          obtain ⟨rfl, rfl⟩ := hrest.unique h₂
          refine ⟨by simp [hok, hok₁, hok₂], fun _ => ?_, fun _ => ?_⟩
          · rw [hcontent]
            refine stamped_resumed hv fun hnil => ⟨hvs hnil, ?_⟩
            subst hnil
            rw [List.append_nil] at h
            exact congrArg Page.content (h.unique h₁).2
          · rw [hh, hh₁, hh₂, Response.concat_append]
  | halted hbad hnone =>
      -- A second leg that succeeds would complete the first to the whole chain.
      cases h₂ with
      | applied hok₂ h₂ hh₂ =>
          obtain ⟨g', h'⟩ := h₂.of_put hk
          exact absurd (h₁.append h') (hnone _ _)
      | halted hbad₂ hnone₂ =>
          refine ⟨by simp [hbad, hbad₂], fun hok => ?_, fun hok => ?_⟩
          · simp [hbad] at hok
          · simp [hbad] at hok

theorem stepwise_migration (e : Engine) (hb : e.registry.Built)
    (ha : e.registry.Avoids VersionTag.slot.bytes) (held : Except Fault (List Coin))
    (payload : Json) {s : Session} (ho : s.store.isOpen = true) {version middle : String}
    (hs : VersionTag.slot.loaded s.store.content = .ok ⟨e.name, version⟩) {chain : List Upgrade}
    (hl : e.registry.Leads e.version version chain)
    (hm : middle ∈ version :: chain.map Upgrade.target) :
    ∃ direct s' first s₁ second s₂, e.migrate held payload s = (.ok direct, s')
      ∧ { e with version := middle }.migrate held payload s = (.ok first, s₁)
      ∧ e.migrate held payload s₁ = (.ok second, s₂)
      ∧ Rejoins direct s'.store.content first second s₂.store.content := by
  cases hmessage : MigrateMessage.ofJson? payload with
  | none =>
      obtain ⟨direct, s', hdirect, -, hbad⟩ := e.migrate_unread held ho hmessage
      obtain ⟨first, s₁, hfirst, ho₁, hbad₁⟩ :=
        { e with version := middle }.migrate_unread held ho hmessage
      obtain ⟨second, s₂, hsecond, -, -⟩ := e.migrate_unread held ho₁ hmessage
      exact ⟨direct, s', first, s₁, second, s₂, hdirect, hfirst, hsecond, .of_halted hbad hbad₁ ..⟩
  | some message =>
      obtain ⟨us, vs, rfl, hus, hvs⟩ := hl.split hm
      obtain ⟨direct, s', hdirect, -, hleg⟩ := migrate_leads held hb.forward ho hmessage hs hl
      obtain ⟨first, s₁, hfirst, ho₁, hleg₁⟩ :=
        migrate_leads (e := ⟨e.name, middle, e.registry⟩) held hb.forward ho hmessage hs hus
      -- The second leg starts from the tag that the first one wrote, or from the old one where the
      -- label is the first of the chain.
      have htag (hok : first.isOk = true) := hleg₁.tagged hok hs hus
      generalize hc₁ : s₁.store.content = c₁ at hleg₁ htag
      cases hleg₁ with
      | @applied rs g₁ hok₁ h₁ hh₁ =>
          obtain ⟨v, hv⟩ := { e with version := middle }.stamped_eq_put us g₁.content
          obtain ⟨second, s₂, hsecond, -, hleg₂⟩ :=
            migrate_leads held hb.forward ho₁ hmessage (hc₁ ▸ htag hok₁) hvs
          rw [Session.page, hc₁, hv] at hleg₂
          refine ⟨direct, s', first, s₁, second, s₂, hdirect, hfirst, hsecond, ?_⟩
          refine hleg.rejoins (fun u hu g => ha u (hvs.mem u hu) message held g) hok₁ h₁ hh₁ hv
            hleg₂ fun hnil => ?_
          subst hnil
          cases hvs
          rfl
      | halted hbad₁ hnone₁ =>
          -- A first part that cannot be applied keeps the whole chain from being applied.
          obtain ⟨s₂, hsecond, -, -⟩ := e.migrate_open held payload ho₁
          refine ⟨direct, s', first, s₁, _, s₂, hdirect, hfirst, hsecond, ?_⟩
          generalize s'.store.content = c' at hleg
          cases hleg with
          | applied hok h hh =>
              obtain ⟨rs₁, rest, g₁, -, h₁, -⟩ := h.split
              exact absurd h₁ (hnone₁ rs₁ g₁)
          | halted hbad hnone => exact .of_halted hbad hbad₁ ..

theorem foldSlots_avoids (held : Except Fault (List Coin)) (g : Page) :
    Upgrades.foldSlots.Avoids held VersionTag.slot.bytes g := by
  unfold Upgrades.foldSlots
  refine (Upgrades.counterSlot.avoids_load (by decide)).bind fun counter _ => ?_
  refine (Upgrades.minimalDonationSlot.avoids_load (by decide)).bind fun minimum _ => ?_
  refine (Upgrades.ownerSlot.avoids_load (by decide)).bind fun owner _ => ?_
  split
  · exact Action.avoids_fail _
  · refine (PlainState.slot.avoids_save (by decide) _).bind fun _ _ => ?_
    refine (Upgrades.counterSlot.avoids_erase (by decide)).bind fun _ _ => ?_
    refine (Upgrades.minimalDonationSlot.avoids_erase (by decide)).bind fun _ _ => ?_
    exact (Upgrades.ownerSlot.avoids_erase (by decide)).bind fun _ _ => Action.avoids_pure _

theorem configureParent_avoids (parent : Option Parent) (held : Except Fault (List Coin))
    (g : Page) : (configureParent parent).Avoids held VersionTag.slot.bytes g := by
  cases parent with
  | none => exact Action.avoids_pure _
  | some p =>
      unfold configureParent
      refine (Action.avoids_ofExcept _).bind fun f _ => ?_
      exact (Forwarding.slot.avoids_save (by decide) f).bind fun _ _ => Action.avoids_pure _

theorem addCountdown_avoids (m : MigrateMessage) (held : Except Fault (List Coin)) (g : Page) :
    (Upgrades.addCountdown m).Avoids held VersionTag.slot.bytes g := by
  unfold Upgrades.addCountdown
  refine (PlainState.slot.avoids_load (by decide)).bind fun old _ => ?_
  refine (configureParent_avoids m.parent held _).bind fun countdown _ => ?_
  exact (State.slot.avoids_save (by decide) _).bind fun _ _ => Action.avoids_pure _

theorem released_avoids : Upgrades.released.Avoids VersionTag.slot.bytes := by
  intro u hu m held g
  obtain rfl | rfl : u = ⟨"0.1.0", "0.2.0", fun _ => Upgrades.foldSlots⟩
      ∨ u = ⟨"0.2.0", "0.3.0", Upgrades.addCountdown⟩ := by
    simpa [Upgrades.released] using hu
  · exact foldSlots_avoids held g
  · exact addCountdown_avoids m held g

theorem stepwise_migration_released :
    let c := Content.ofList [
      (Upgrades.counterSlot.bytes, (Json.int 7).toBytes),
      (Upgrades.minimalDonationSlot.bytes, (Coin.shape.write ⟨"atom", 10⟩).toBytes),
      (Upgrades.ownerSlot.bytes, (Json.str "owner").toBytes),
      (VersionTag.slot.bytes,
        (VersionTag.shape.write ⟨"counting-contract", "0.1.0"⟩).toBytes)]
    ∃ direct s' first s₁ second s₂,
      current.migrate (.ok []) (.obj []) ⟨.memory c, []⟩ = (.ok direct, s')
      ∧ { current with version := "0.2.0" }.migrate (.ok []) (.obj []) ⟨.memory c, []⟩
        = (.ok first, s₁)
      ∧ current.migrate (.ok []) (.obj []) s₁ = (.ok second, s₂)
      ∧ first.isOk = true ∧ second.isOk = true
      ∧ s₂.store.content = s'.store.content
      ∧ direct.handled = first.handled.append second.handled := by
  intro c
  have hs : VersionTag.slot.loaded c = .ok ⟨"counting-contract", "0.1.0"⟩ :=
    eq_ok_of_toOption (by decide +kernel)
  have hok : (current.migrate (.ok []) (.obj []) ⟨.memory c, []⟩).1.toOption.map Reply.isOk
      = some true := by decide +kernel
  obtain ⟨direct, s', first, s₁, second, s₂, hdirect, hfirst, hsecond, h⟩ :=
    stepwise_migration current released_built released_avoids (.ok []) (.obj [])
      (s := ⟨.memory c, []⟩) rfl hs Registry.released_leads
      (List.mem_cons_of_mem _ (List.mem_cons_self (a := "0.2.0")))
  rw [hdirect] at hok
  have hdone : direct.isOk = true := Option.some.inj hok
  obtain ⟨hfirst', hsecond'⟩ := h.isOk.1 hdone
  exact ⟨direct, s', first, s₁, second, s₂, hdirect, hfirst, hsecond, hfirst', hsecond',
    h.content hdone, h.handled hdone⟩

end Engine

end DonationLedger
