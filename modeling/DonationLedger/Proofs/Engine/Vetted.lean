import DonationLedger.Proofs.Contract.Spelling
import DonationLedger.Proofs.Engine.Indifference
import DonationLedger.Proofs.Migration.Applied

namespace DonationLedger

open Address (Accepted)

def Action.Preserves {α : Type} (P : Content → Prop) (a : Action α) : Prop :=
  ∀ held g v g', a.eval held g = (.ok v, g') → P g.content → P g'.content

namespace Action.Preserves

variable {α β : Type} {P : Content → Prop}

theorem pure (v : α) : (pure v : Action α).Preserves P := by
  intro held g w g' h
  obtain ⟨-, rfl⟩ := pure_eval_ok h
  exact id

theorem fail (f : Fault) : (fail f : Action α).Preserves P := by
  intro held g v g' h
  cases h

theorem bind {a : Action α} {f : α → Action β} (ha : a.Preserves P)
    (hf : ∀ v, (f v).Preserves P) : (a >>= f).Preserves P := by
  intro held g w g'' h hp
  obtain ⟨v, g', h₁, h₂⟩ := bind_eval_ok h
  exact hf v held g' w g'' h₂ (ha held g v g' h₁ hp)

theorem load (slot : Slot α) : slot.load.Preserves P := by
  intro held g v g' h
  obtain ⟨-, rfl⟩ := Slot.load_eval_ok h
  exact id

theorem save {slot : Slot α} {a : α}
    (hp : ∀ c b, slot.encode a = .ok b → P c → P (c.insert slot.bytes b)) :
    (slot.save a).Preserves P := by
  intro held g u g' h
  obtain ⟨b, hb, rfl⟩ := Slot.save_eval_ok h
  exact hp g.content b hb

theorem erase {slot : Slot α} (hp : ∀ c, P c → P (c.erase slot.bytes)) :
    slot.erase.Preserves P := by
  intro held g u g' h
  rw [Slot.eval_erase] at h
  obtain ⟨-, rfl⟩ := Prod.mk.inj h
  exact hp g.content

end Action.Preserves

def Vetted (c : Content) : Prop :=
  ∀ f, Forwarding.slot.loaded c = .ok f → Accepted f.address

namespace Vetted

variable {c c' : Content}

theorem congr (hc : c'.get? Forwarding.slot.bytes = c.get? Forwarding.slot.bytes)
    (h : Vetted c) : Vetted c' := by
  intro f hf
  rw [Forwarding.slot.loaded_congr hc] at hf
  exact h f hf

theorem of_empty : Vetted .empty := by
  intro f hf
  cases hf

theorem save_other {α : Type} {slot : Slot α} (hk : Forwarding.slot.bytes ≠ slot.bytes) (a : α) :
    (slot.save a).Preserves Vetted :=
  .save fun c b _ => congr (slot.get?_insert_ne hk c b)

theorem erase_other {α : Type} {slot : Slot α} (hk : slot.bytes ≠ Forwarding.slot.bytes) :
    slot.erase.Preserves Vetted :=
  .erase fun c => congr (by rw [Content.get?_erase, if_neg hk])

theorem save_own {f : Forwarding} (hf : Accepted f.address) :
    (Forwarding.slot.save f).Preserves Vetted := by
  refine .save fun c b hb _ f' hf' => ?_
  obtain rfl := Except.ok.inj ((Slot.loaded_insert Forwarding.shape_lawful hb c).symm.trans hf')
  exact hf

theorem forwarding_accepted {p : Parent} {f : Forwarding} (h : p.forwarding = .ok f) :
    Accepted f.address := by
  unfold Parent.forwarding at h
  split at h
  · cases h
  · split at h
    · cases h
    · cases ha : Address.destination p.address with
      | error e =>
          rw [ha] at h
          cases h
      | ok a =>
          rw [ha] at h
          obtain ⟨rfl, hvalid⟩ := Address.destination_eq_ok ha
          obtain rfl := Except.ok.inj h
          exact Address.accepted_of_validate hvalid

theorem configureParent (parent : Option Parent) : (configureParent parent).Preserves Vetted := by
  cases parent with
  | none => exact .pure none
  | some p =>
      intro held g n g' h
      obtain ⟨f, g₁, h₁, h₂⟩ := Action.bind_eval_ok h
      obtain ⟨hf, rfl⟩ := Action.ofExcept_eval_ok h₁
      exact Action.Preserves.bind (save_own (forwarding_accepted hf)) (fun _ => .pure _)
        held _ n g' h₂

theorem instantiate (caller : Caller) (m : InstantiateMessage) :
    (instantiate caller m).Preserves Vetted :=
  (configureParent m.parent).bind fun countdown =>
    (save_other (by decide) VersionTag.current).bind fun _ =>
      (save_other (by decide) _).bind fun _ => .pure _

theorem foldSlots : Upgrades.foldSlots.Preserves Vetted := by
  refine (Action.Preserves.load _).bind fun counter => (Action.Preserves.load _).bind fun minimum =>
    (Action.Preserves.load _).bind fun owner => ?_
  split
  · exact .fail _
  · exact (save_other (by decide) _).bind fun _ => (erase_other (by decide)).bind fun _ =>
      (erase_other (by decide)).bind fun _ => (erase_other (by decide)).bind fun _ => .pure _

theorem addCountdown (m : MigrateMessage) : (Upgrades.addCountdown m).Preserves Vetted :=
  (Action.Preserves.load _).bind fun _ => (configureParent m.parent).bind fun _ =>
    (save_other (by decide) _).bind fun _ => .pure _

theorem released : ∀ u ∈ Upgrades.released.upgrades, ∀ m, (u.handler m).Preserves Vetted := by
  intro u hu m
  obtain rfl | rfl : u = ⟨"0.1.0", "0.2.0", fun _ => Upgrades.foldSlots⟩
      ∨ u = ⟨"0.2.0", "0.3.0", Upgrades.addCountdown⟩ := by
    simpa [Upgrades.released] using hu
  · exact foldSlots
  · exact addCountdown m

theorem applied {held : Except Fault (List Coin)} {m : MigrateMessage} {us : List Upgrade}
    {g g' : Page} {rs : List Response} (hu : ∀ u ∈ us, (u.handler m).Preserves Vetted)
    (h : Migration.Applied held m us g rs g') (hg : Vetted g.content) : Vetted g'.content := by
  induction h with
  | done g => exact hg
  | upgrade happly h ih =>
      obtain ⟨hfirst, hrest⟩ := List.forall_mem_cons.1 hu
      exact ih hrest (hfirst _ _ _ _ happly hg)

end Vetted

theorem Migration.plan_eval_ok {registry : Registry} {t : VersionTag}
    {held : Except Fault (List Coin)} {g g' : Page} {chain : List Upgrade}
    (hf : Registry.Forward registry.upgrades)
    (h : (plan registry t).eval held g = (.ok chain, g')) :
    g' = g ∧ ∀ u ∈ chain, u ∈ registry.upgrades := by
  obtain ⟨stored, g₁, h₁, h₂⟩ := Action.bind_eval_ok h
  obtain ⟨-, rfl⟩ := Slot.load_eval_ok h₁
  split at h₂
  · cases h₂
  · split at h₂
    · obtain ⟨rfl, rfl⟩ := Action.pure_eval_ok h₂
      exact ⟨rfl, fun u hu => by cases hu⟩
    · next hne =>
        obtain ⟨hchain, rfl⟩ := Action.ofExcept_eval_ok h₂
        exact ⟨rfl, (Registry.leads_of_chainFrom hf hchain).mem⟩

namespace Engine

variable {held : Except Fault (List Coin)} {caller : Caller} {payload : Json} {g g' : Page}
  {r : Response}

theorem creation_vetted (h : (creation caller payload).eval held g = ((.ok r, ()), g'))
    (hg : Vetted g.content) : Vetted g'.content := by
  obtain ⟨m, -, hm⟩ := handling_eval_ok h
  exact Vetted.instantiate caller m held g r g' hm hg

theorem execution_vetted (h : (execution caller payload).eval held g = ((.ok r, ()), g'))
    (hg : Vetted g.content) : Vetted g'.content := by
  obtain ⟨_, _, _, -, -, -, hr⟩ := execution_eval_ok h
  exact hg.congr (hr.frame _ stateKey_ne_forwardingKey.symm)

theorem migration_vetted {p : Migration.Progress}
    (h : (current.migration payload).eval held g = ((.ok r, p), g'))
    (hg : Vetted g.content) : Vetted g'.content := by
  cases hm : MigrateMessage.ofJson? payload with
  | none =>
      simp only [migration, Family.parse, hm] at h
      cases h
  | some m =>
      rw [migration_eval_message hm] at h
      cases hp : (Migration.plan current.registry current.tag).program.eval held g with
      | mk x g₁ =>
          cases x with
          | error f =>
              rw [Migration.migrate, Program.bind_eq, Program.eval_bind, hp] at h
              cases h
          | ok chain =>
              obtain ⟨rfl, hmem⟩ := Migration.plan_eval_ok released_built.forward hp
              cases chain with
              | nil =>
                  rw [Migration.migrate, Program.bind_eq, Program.eval_bind, hp] at h
                  obtain ⟨-, rfl⟩ := Prod.mk.inj h
                  exact hg
              | cons u us =>
                  obtain ⟨rs, g₂, happly, hfinish⟩ :=
                    Migration.migrate_eval_chain hp (List.cons_ne_nil u us) h
                  obtain ⟨b, hb⟩ := VersionTag.encode_ok current.tag
                  rw [Migration.finish_eval hb] at hfinish
                  obtain ⟨-, rfl⟩ := Prod.mk.inj hfinish
                  have hvetted : Vetted g₂.content :=
                    .applied (fun u hu => Vetted.released u (hmem u hu) m) happly hg
                  exact hvetted.congr
                    (VersionTag.slot.get?_insert_ne tagKey_ne_forwardingKey.symm _ b)

theorem concluded_vetted {β : Type} (e : Engine) (entry : Family) (held : Except Fault (List Coin))
    {p : Program (Except Fault Response × β)} {g : Page}
    (hp : ∀ r b g', p.eval held g = ((.ok r, b), g') → Vetted g'.content)
    (hg : Vetted g.content) : Vetted (e.concluded entry held p g).2.content := by
  unfold concluded
  cases he : p.eval held g with
  | mk x g' =>
      obtain ⟨a, b⟩ := x
      cases a with
      | ok r => exact hp r b g' he
      | error f => exact hg

theorem Call.eval_vetted (call : Call) {g : Page} (hg : Vetted g.content) :
    Vetted (call.eval current g).2.content := by
  cases call with
  | instantiate held caller payload =>
      exact concluded_vetted current .instantiate held (fun _ _ _ h => creation_vetted h hg) hg
  | execute held caller payload =>
      exact concluded_vetted current .execute held (fun _ _ _ h => execution_vetted h hg) hg
  | migrate held payload =>
      exact concluded_vetted current .migrate held (fun _ _ _ h => migration_vetted h hg) hg
  | query held payload =>
      have hpage := inquiry_eval held g payload
      unfold Action.eval at hpage
      change Vetted ((inquiry payload).program.eval held g).2.content
      rw [hpage]
      exact hg

def calledAll (e : Engine) (s : Session) (calls : List Call) : Session :=
  calls.foldl (fun s call => (call.answer e s).2) s

theorem calledAll_vetted (calls : List Call) {s : Session} (hopen : s.store.isOpen = true)
    (hs : Vetted s.store.content) : Vetted (current.calledAll s calls).store.content := by
  induction calls generalizing s with
  | nil => exact hs
  | cons call calls ih =>
      obtain ⟨t, ht, hopen', hpage⟩ := call.answer_page current hopen
      have hstep : current.calledAll s (call :: calls) = current.calledAll t calls := by
        rw [calledAll, List.foldl_cons, ht]
        rfl
      have hcontent : t.store.content = (call.eval current s.page).2.content :=
        congrArg Page.content hpage
      rw [hstep]
      exact ih hopen' (hcontent ▸ call.eval_vetted hs)

end Engine

end DonationLedger
