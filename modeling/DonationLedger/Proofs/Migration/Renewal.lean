import DonationLedger.Proofs.Engine.Period
import DonationLedger.Proofs.Migration.Applied

namespace DonationLedger

open Upgrades (counterSlot minimalDonationSlot ownerSlot addCountdown foldSlots)

def Content.Only (keys : List Bytes) (c : Content) : Prop := ∀ k, k ∉ keys → c.get? k = none

def endowment : Option Parent → Except Fault (Option Int × Option Bytes)
  | none => .ok (none, none)
  | some p => do
      let f ← p.forwarding
      let b ← Forwarding.slot.encode f
      .ok (some f.period, some b)

def PlainState.starting (s : PlainState) (countdown : Option Int) : State :=
  ⟨s.counter, s.minimalDonation, s.owner, countdown⟩

def setup (parent : Option Parent) (s : PlainState) : Except Fault (Option Bytes × Bytes) := do
  let (countdown, entry) ← endowment parent
  let b ← State.slot.encode (s.starting countdown)
  .ok (entry, b)

def InstantiateMessage.plain (m : InstantiateMessage) (caller : Caller) : PlainState :=
  ⟨m.counter, m.minimalDonation, caller.sender⟩

/-- A store of a released version that holds these values and nothing else. -/
inductive Outdated (s : PlainState) (c : Content) : Prop where
  | slots (tag : VersionTag.slot.loaded c = .ok ⟨"counting-contract", "0.1.0"⟩)
      (counter : counterSlot.loaded c = .ok s.counter)
      (minimalDonation : minimalDonationSlot.loaded c = .ok s.minimalDonation)
      (owner : ownerSlot.loaded c = .ok s.owner)
      (only : c.Only
        [VersionTag.slot.bytes, counterSlot.bytes, minimalDonationSlot.bytes, ownerSlot.bytes])
  | folded (tag : VersionTag.slot.loaded c = .ok ⟨"counting-contract", "0.2.0"⟩)
      (state : PlainState.slot.loaded c = .ok s)
      (only : c.Only [VersionTag.slot.bytes, State.slot.bytes])

variable {held : Except Fault (List Coin)} {g : Page} {s : PlainState} {parent : Option Parent}

theorem configureParent_eval (held : Except Fault (List Coin)) (parent : Option Parent)
    (hg : g.content.get? Forwarding.slot.bytes = none) :
    (configureParent parent).eval held g
      = match endowment parent with
        | .ok (n, v) => (.ok n, { g with content := g.content.put Forwarding.slot.bytes v })
        | .error f => (.error f, g) := by
  cases parent with
  | none =>
      have hput := g.content.put_get? Forwarding.slot.bytes
      rw [hg] at hput
      simp only [configureParent, Action.eval_pure, endowment, hput]
  | some p =>
      simp only [configureParent, endowment, Action.eval_bind, Action.eval_ofExcept]
      cases p.forwarding with
      | error f => rfl
      | ok f =>
          simp only [Slot.eval_save]
          cases hb : Forwarding.slot.encode f with
          | error e => simp [bind, Except.bind, hb]
          | ok b => simp [bind, Except.bind, hb, Content.put]

inductive Sets (written : Option Bytes → Bytes → Content) :
    Except Fault (Option Bytes × Bytes) → Except Fault Response × Page → Prop where
  | done {v : Option Bytes} {b : Bytes} {r : Response} {g : Page} (h : g.content = written v b) :
      Sets written (.ok (v, b)) (.ok r, g)
  | failed (f : Fault) (g : Page) : Sets written (.error f) (.error f, g)

theorem instantiate_sets (held : Except Fault (List Coin)) (caller : Caller)
    (m : InstantiateMessage) (hg : g.content.get? Forwarding.slot.bytes = none) {t : Bytes}
    (ht : VersionTag.slot.encode VersionTag.current = .ok t) :
    Sets (fun v b => ((g.content.put Forwarding.slot.bytes v).insert VersionTag.slot.bytes t).insert
        State.slot.bytes b)
      (setup m.parent (m.plain caller)) ((instantiate caller m).eval held g) := by
  simp only [instantiate, setup, Action.eval_bind, configureParent_eval held m.parent hg]
  cases endowment m.parent with
  | error f => exact .failed f g
  | ok x =>
      obtain ⟨n, v⟩ := x
      simp only [Slot.eval_save, ht, bind, Except.bind, PlainState.starting,
        InstantiateMessage.plain]
      cases State.slot.encode ⟨m.counter, m.minimalDonation, caller.sender, n⟩ with
      | error f => exact .failed f _
      | ok b => exact .done rfl

theorem addCountdown_sets (held : Except Fault (List Coin)) (parent : Option Parent)
    (hs : PlainState.slot.loaded g.content = .ok s)
    (hg : g.content.get? Forwarding.slot.bytes = none) :
    Sets (fun v b => (g.content.put Forwarding.slot.bytes v).insert State.slot.bytes b)
      (setup parent s) ((addCountdown ⟨parent⟩).eval held g) := by
  simp only [addCountdown, setup, Action.eval_bind, Slot.eval_load, hs,
    configureParent_eval held parent hg]
  cases endowment parent with
  | error f => exact .failed f g
  | ok x =>
      obtain ⟨n, v⟩ := x
      simp only [Slot.eval_save, bind, Except.bind, PlainState.starting]
      cases State.slot.encode ⟨s.counter, s.minimalDonation, s.owner, n⟩ with
      | error f => exact .failed f _
      | ok b => exact .done rfl

theorem foldSlots_eval (held : Except Fault (List Coin)) {c : Content} (trace : List String)
    (hb : s.Bounded) (hcounter : counterSlot.loaded c = .ok s.counter)
    (hminimum : minimalDonationSlot.loaded c = .ok s.minimalDonation)
    (howner : ownerSlot.loaded c = .ok s.owner) {b : Bytes}
    (hs : PlainState.slot.encode s = .ok b) :
    ∃ r, foldSlots.eval held ⟨c, trace⟩
      = (.ok r, ⟨(((c.insert State.slot.bytes b).erase counterSlot.bytes).erase
          minimalDonationSlot.bytes).erase ownerSlot.bytes, trace⟩) := by
  have hrange : ¬(s.counter < 0 ∨ counterLimit < s.counter) := by
    have := hb.counter
    omega
  refine ⟨Response.empty.note "upgraded" "0.1.0->0.2.0", ?_⟩
  simp only [foldSlots, Action.eval_bind, Slot.eval_load, hcounter, hminimum, howner,
    if_neg hrange, Slot.eval_save, hs, Slot.eval_erase, Action.eval_pure]
  rfl

theorem Content.Only.replaced {c : Content} (h : c.Only [VersionTag.slot.bytes, State.slot.bytes])
    (v : Option Bytes) (t b : Bytes) :
    ((c.put Forwarding.slot.bytes v).insert State.slot.bytes b).insert VersionTag.slot.bytes t
      = ((Content.empty.put Forwarding.slot.bytes v).insert VersionTag.slot.bytes t).insert
        State.slot.bytes b := by
  apply Content.ext_get?
  intro k
  simp only [Content.get?_insert, Content.get?_put, Content.get?_empty]
  by_cases hs : State.slot.bytes = k
  · subst hs
    simp [stateKey_ne_tagKey.symm]
  · by_cases ht : VersionTag.slot.bytes = k
    · simp [hs, ht]
    · rw [h k (by simp [Ne.symm hs, Ne.symm ht])]
      simp [hs, ht]

theorem InstantiateMessage.bounded_of_read {v : Json} {m : InstantiateMessage}
    (h : ofJson? v = some m) (caller : Caller) : (m.plain caller).Bounded := by
  simp only [ofJson?, Option.bind_eq_bind, Option.bind_eq_some_iff] at h
  obtain ⟨ms, -, counter, hcounter, minimum, hminimum, parent, -, hm⟩ := h
  obtain rfl := Option.some.inj hm
  obtain ⟨_, hmin⟩ := Json.exists_of_field? hminimum
  refine ⟨?_, Coin.valid_of_read hmin⟩
  unfold Json.fieldOr? at hcounter
  split at hcounter
  · exact Json.range_of_toIntIn? hcounter
  · obtain rfl := Option.some.inj hcounter
    exact ⟨Int.le_refl 0, show (0 : Int) ≤ counterLimit by decide⟩

namespace Engine

open Migration (Applied)

variable {old : Page}

theorem Outdated.leads (h : Outdated s old.content) (hb : s.Bounded)
    (held : Except Fault (List Coin)) (m : MigrateMessage) :
    ∃ version us rs g, VersionTag.slot.loaded old.content = .ok ⟨current.name, version⟩
      ∧ current.registry.Leads current.version version
        (us ++ [⟨"0.2.0", "0.3.0", addCountdown⟩])
      ∧ Applied held m us old rs g
      ∧ PlainState.slot.loaded g.content = .ok s
      ∧ g.content.Only [VersionTag.slot.bytes, State.slot.bytes] := by
  cases h with
  | folded tag state only =>
      exact ⟨"0.2.0", [], [], old, tag, Registry.released_leads_countdown, .done _, state,
        only⟩
  | slots tag counter minimum owner only =>
      obtain ⟨b, hs⟩ := hb.encode
      let u : Upgrade := ⟨"0.1.0", "0.2.0", fun _ => foldSlots⟩
      obtain ⟨r, hr⟩ :=
        foldSlots_eval held (old.trace ++ [Migration.line u]) hb counter minimum owner hs
      refine ⟨"0.1.0", [u], [r], _, tag, Registry.released_leads, .upgrade hr (.done _), ?_,
        fun k hk => ?_⟩
      · rw [PlainState.slot.loaded_congr (c := old.content.insert PlainState.slot.bytes b)]
        · exact Slot.loaded_insert PlainState.shape_lawful hs old.content
        · simp only [Content.get?_erase]
          rw [if_neg (by decide), if_neg (by decide), if_neg (by decide)]
          rfl
      · simp only [List.mem_cons, List.not_mem_nil, or_false, not_or] at hk
        simp only [Content.get?_erase, Content.get?_insert, if_neg (Ne.symm hk.2)]
        split
        · rfl
        · split
          · rfl
          · split
            · rfl
            · exact only k (by simp_all [eq_comm])

theorem renewal_sets (h : Outdated s old.content) (hb : s.Bounded) {renewal : Json}
    (hr : MigrateMessage.ofJson? renewal = some ⟨parent⟩) {t : Bytes}
    (ht : VersionTag.slot.encode VersionTag.current = .ok t) (held : Except Fault (List Coin)) :
    Sets (fun v b => ((Content.empty.put Forwarding.slot.bytes v).insert
        VersionTag.slot.bytes t).insert State.slot.bytes b)
      (setup parent s) (((current.migration renewal).eval held old).1.1,
        ((current.migration renewal).eval held old).2) := by
  obtain ⟨version, us, rs, g, htag, hleads, happlied, hstate, honly⟩ :=
    Outdated.leads h hb held ⟨parent⟩
  let u : Upgrade := ⟨"0.2.0", "0.3.0", addCountdown⟩
  have hne : us ++ [u] ≠ [] := by simp
  have hplan : (Migration.plan current.registry current.tag).program.eval held old
      = (.ok (us ++ [u]), old) := plan_leads released_built.forward htag hleads hne
  have hadd := addCountdown_sets held parent
    (g := ⟨g.content, g.trace ++ [Migration.line u]⟩) hstate (honly _ (by decide))
  generalize he : (addCountdown ⟨parent⟩).eval held
    { g with trace := g.trace ++ [Migration.line u] } = x at hadd
  generalize setup parent s = y at hadd ⊢
  rw [migration_eval_message hr]
  -- The upgrades before the last one have been applied, so that it alone decides.
  cases hadd with
  | failed f g' =>
      obtain ⟨p, hp⟩ := Migration.applyAll_eval_halted happlied (u := u) he [] Response.empty
        { Migration.Progress.start with status := .inProgress }
      rw [Migration.migrate_eval_halted hplan hne hp]
      exact .failed f g'
  | @done v b r g' hg' =>
      have happlied' := happlied.append (.upgrade (u := u) he (.done g'))
      rw [Migration.migrate_eval_applied hplan hne happlied',
        Migration.finish_eval (t := current.tag) ht]
      refine .done ?_
      rw [hg']
      exact honly.replaced v t b

theorem instantiate_open (e : Engine) (held : Except Fault (List Coin)) (caller : Caller)
    {payload : Json} {m : InstantiateMessage} (hm : InstantiateMessage.ofJson? payload = some m)
    {s : Session} (h : s.store.isOpen = true) :
    ∃ s', e.instantiate held caller payload s
        = (.ok (replyOf ((DonationLedger.instantiate caller m).eval held s.page).1 []), s')
      ∧ s'.store.content
        = settled s.store.content ((DonationLedger.instantiate caller m).eval held s.page).1
          ((DonationLedger.instantiate caller m).eval held s.page).2.content := by
  have hp : (creation caller payload).eval held s.page
      = ((((DonationLedger.instantiate caller m).eval held s.page).1, ()),
        ((DonationLedger.instantiate caller m).eval held s.page).2) := handling_eval hm
  obtain ⟨s', hs', -, hpage⟩ := e.transact_page .instantiate held (creation caller payload) h
  rw [concluded, hp] at hs' hpage
  refine ⟨s', ?_, congrArg Page.content hpage⟩
  rw [Engine.instantiate, hs']
  rfl

theorem migrated_is_fresh {creation renewal : Json} {m : InstantiateMessage}
    (hm : InstantiateMessage.ofJson? creation = some m)
    (hr : MigrateMessage.ofJson? renewal = some ⟨m.parent⟩) (caller : Caller)
    {old new : Session} (hold : old.store.isOpen = true) (hnew : new.store.isOpen = true)
    (hvalues : Outdated (m.plain caller) old.store.content)
    (hempty : new.store.content = Content.empty) (held held' : Except Fault (List Coin)) :
    ∃ migrated s founded t, current.migrate held renewal old = (.ok migrated, s)
      ∧ current.instantiate held' caller creation new = (.ok founded, t)
      ∧ migrated.isOk = founded.isOk
      ∧ (founded.isOk = true → s.store.content = t.store.content
        ∧ s.store.content.Only
          [VersionTag.slot.bytes, State.slot.bytes, Forwarding.slot.bytes])
      ∧ ∀ f, founded.answer = .error f → migrated.answer = .error f
        ∧ s.store.content = old.store.content ∧ t.store.content = Content.empty := by
  obtain ⟨b, hb⟩ := VersionTag.encode_ok VersionTag.current
  have hpage : new.page.content = Content.empty := hempty
  have hold' : Outdated (m.plain caller) old.page.content := hvalues
  have hrenewal := renewal_sets hold'
    (InstantiateMessage.bounded_of_read hm caller) hr hb held
  have hcreation := instantiate_sets held' caller m (g := new.page)
    (by rw [hpage, Content.get?_empty]) hb
  rw [hpage] at hcreation
  obtain ⟨s, hs, -, hsc⟩ := current.migrate_open held renewal hold
  obtain ⟨t, ht, htc⟩ := current.instantiate_open held' caller hm hnew
  refine ⟨_, s, _, t, hs, ht, ?_⟩
  generalize (current.migration renewal).eval held old.page = x at hrenewal hsc ⊢
  generalize (DonationLedger.instantiate caller m).eval held' new.page = y at hcreation htc ⊢
  generalize setup m.parent (m.plain caller) = w at hrenewal hcreation
  obtain ⟨⟨a, p⟩, g⟩ := x
  cases hcreation with
  | failed f g' =>
      cases hrenewal with
      | failed =>
          refine ⟨rfl, nofun, fun f' hf => ?_⟩
          exact ⟨hf, hsc, htc.trans hempty⟩
  | done h' =>
      cases hrenewal with
      | done h =>
          refine ⟨rfl, fun _ => ⟨?_, fun k hk => ?_⟩, nofun⟩
          · exact (hsc.trans (h.trans h'.symm)).trans htc.symm
          · rw [hsc.trans h]
            simp only [List.mem_cons, List.not_mem_nil, or_false, not_or] at hk
            simp only [Content.get?_insert, Content.get?_put, Content.get?_empty]
            rw [if_neg (Ne.symm hk.2.1), if_neg (Ne.symm hk.1), if_neg (Ne.symm hk.2.2)]

theorem migrated_is_fresh_parent :
    let parent := Json.obj [("addr", .str "parent"), ("donating_period", .int 2),
      ("part", .str "0.10")]
    let minimum := Json.obj [("denom", .str "atom"), ("amount", .str "10")]
    let old := Content.ofList [
      (counterSlot.bytes, (Json.str " 7 ").toBytes),
      (minimalDonationSlot.bytes, minimum.toBytes),
      (ownerSlot.bytes, (Json.str "owner").toBytes),
      (VersionTag.slot.bytes,
        (VersionTag.shape.write ⟨"counting-contract", "0.1.0"⟩).toBytes)]
    let creation := Json.obj [("counter", .int 7), ("minimal_donation", minimum),
      ("parent", parent)]
    ∃ migrated s founded t,
      current.migrate (.ok []) (.obj [("parent", parent)]) ⟨.memory old, []⟩ = (.ok migrated, s)
      ∧ current.instantiate (.ok []) ⟨"owner", []⟩ creation ⟨.memory .empty, []⟩
        = (.ok founded, t)
      ∧ migrated.isOk = true ∧ founded.isOk = true ∧ s.store.content = t.store.content := by
  intro parent minimum old creation
  let part : Number.Decimal := { negative := false, coefficient := 10, exponent := -2 }
  let m : InstantiateMessage := ⟨7, ⟨"atom", 10⟩, some ⟨"parent", 2, part⟩⟩
  have hm : InstantiateMessage.ofJson? creation = some m := by decide +kernel
  have hr : MigrateMessage.ofJson? (.obj [("parent", parent)]) = some ⟨m.parent⟩ := by
    decide +kernel
  have hvalues : Outdated (m.plain ⟨"owner", []⟩) old := by
    refine .slots (eq_ok_of_toOption (by decide +kernel)) (eq_ok_of_toOption (by decide +kernel))
      (eq_ok_of_toOption (by decide +kernel)) (eq_ok_of_toOption (by decide +kernel)) fun k hk => ?_
    simp only [List.mem_cons, List.not_mem_nil, or_false, not_or] at hk
    simp [old, Content.ofList, Content.get?_insert, Content.get?_empty, eq_comm, hk]
  have hok : (current.instantiate (.ok []) ⟨"owner", []⟩ creation
      ⟨.memory .empty, []⟩).1.toOption.map Reply.isOk = some true := by decide +kernel
  have hold : (⟨.memory old, []⟩ : Session).store.isOpen = true := rfl
  have hnew : (⟨.memory .empty, []⟩ : Session).store.isOpen = true := rfl
  obtain ⟨migrated, s, founded, t, hs, ht, hiff, hsame, -⟩ :=
    migrated_is_fresh hm hr ⟨"owner", []⟩ hold hnew hvalues rfl (.ok []) (.ok [])
  rw [ht] at hok
  have hfounded : founded.isOk = true := Option.some.inj hok
  exact ⟨migrated, s, founded, t, hs, ht, hiff.trans hfounded, hfounded, (hsame hfounded).1⟩

end Engine

end DonationLedger
