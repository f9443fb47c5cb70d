import DonationLedger.Proofs.Contract.Donation
import DonationLedger.Proofs.Host.Invariant

namespace DonationLedger.Host

/-- A keyspace that holds no tag but that of the released build, and no countdown that has nothing
to come to. -/
structure Prepared (d : Content) : Prop where
  tag : ∀ t, VersionTag.slot.loaded d = .ok t → t = VersionTag.current
  state : ∀ s, State.slot.loaded d = .ok s → s.Ready d

namespace Prepared

variable {d d' : Content}

theorem of_empty : Prepared .empty where
  tag _ h := by cases h
  state _ h := by cases h

theorem of_founded {caller : Caller} {m : InstantiateMessage} (h : Founded caller m d d') :
    Prepared d' where
  tag _ ht := Except.ok.inj (ht.symm.trans h.tag)
  state _ hs := h.ready hs

variable {held : Except Fault (List Coin)} {g g' : Page} {r : Response} {payload : Json}

theorem execution {caller : Caller} (h : Prepared g.content)
    (he : (Engine.execution caller payload).eval held g = ((.ok r, ()), g')) :
    Prepared g'.content := by
  obtain ⟨command, s, s', -, hs, hstep, hr⟩ := Engine.execution_eval_ok he
  refine ⟨fun t ht => h.tag t ?_, fun s'' hs'' => ?_⟩
  · rwa [VersionTag.slot.loaded_congr (hr.frame _ stateKey_ne_tagKey.symm)] at ht
  · obtain rfl := Except.ok.inj (hs''.symm.trans hr.loaded)
    exact (h.state s hs).step hstep hr

theorem migration {progress : Migration.Progress} (h : Prepared g.content)
    (he : (Engine.current.migration payload).eval held g = ((.ok r, progress), g')) :
    Prepared g'.content := by
  obtain ⟨t, ht⟩ := Engine.migration_eval_ok he
  obtain rfl := h.tag t ht
  have hsame := (Engine.migration_eval_current held g payload ht).1
  rw [he] at hsame
  obtain rfl : g' = g := hsame
  exact h

end Prepared

structure Provided (c : Content) : Prop where
  balanced : Bank.Balanced c
  keyspaces : ∀ contract front, front? contract = some front → Prepared (c.under front)

theorem Provided.of_empty : Provided .empty := ⟨balanced_empty, fun _ _ _ => .of_empty⟩

def Provides (c c' : Content) : Prop := Provided c → Provided c'

namespace Provides

instance : IsPreorder Content Provides where
  refl _ := id
  trans _ _ _ hab hbc := hbc ∘ hab

variable {c c' : Content} {contract : String} {front : Bytes}

theorem of_bank (hb : Bank.Balanced c → Bank.Balanced c') (ho : c.AgreesOutside Bank.front c') :
    Provides c c' := by
  intro h
  refine ⟨hb h.balanced, fun contract front hf => ?_⟩
  rw [Content.under_congr (fun k => ho _ (bank_rest?_front hf k))]
  exact h.keyspaces contract front hf

theorem transfers : Run.Transfers Provides :=
  fun _ _ _ _ _ h => of_bank (fun hb => (Bank.send_supply h hb).1) (Bank.send_outside h)

theorem of_keyspace (hf : front? contract = some front) (ho : c.AgreesOutside front c')
    (hp : Prepared (c.under front) → Prepared (c'.under front)) : Provides c c' := by
  intro h
  refine ⟨h.balanced.congr (Content.under_congr (fun k => ho _ (rest?_bank hf k))),
    fun other p hother => ?_⟩
  by_cases heq : other = contract
  · subst heq
    obtain rfl := Option.some.inj (hother.symm.trans hf)
    exact hp (h.keyspaces other p hother)
  · rw [Content.under_congr (fun k => ho _ (rest?_front hf hother (Ne.symm heq) k))]
    exact h.keyspaces other p hother

theorem save {α : Type} {slot : Slot α} (hb : Content.rest? Bank.front slot.bytes = none)
    (hk : ∀ contract front, front? contract = some front → Content.rest? front slot.bytes = none)
    (a : α) : Run.Keeps Provides (Run.perform (slot.save a)) := by
  refine .perform (fun g g' u hs h => ?_)
  obtain ⟨b, -, rfl⟩ := Slot.save_eval_ok hs
  refine ⟨h.balanced.congr (Content.under_insert_of_rest? hb _ b), fun contract front hf => ?_⟩
  rw [Content.under_insert_of_rest? (hk contract front hf)]
  exact h.keyspaces contract front hf

theorem record (contract : String) (r : Record) :
    Run.Keeps Provides (Run.perform ((Record.slot contract).save r)) :=
  save (bank_rest?_record contract) (fun _ _ hf => rest?_record hf contract) r

theorem number (n : Int) : Run.Keeps Provides (Run.perform (sequence.save n)) :=
  save bank_rest?_sequence (fun _ _ hf => rest?_sequence hf) n

variable {codes : List Entries} (hcodes : ∀ e ∈ codes, e = (Build.engine .current).entries)

include hcodes

theorem execute : ∀ e ∈ codes, ∀ contract caller message,
    Run.Keeps Provides (e.execute contract caller message) := by
  intro e he contract caller message
  obtain rfl := hcodes e he
  refine .answer .current .execute contract (Engine.execution caller message) (fun _ => []) ?_
  intro front c c' held trace r _ g hf h ho hu
  exact of_keyspace hf ho (fun hp => hu ▸ hp.execution h)

theorem instantiate : ∀ e ∈ codes, ∀ contract caller message,
    Run.Keeps Provides (e.instantiate contract caller message) := by
  intro e he contract caller message
  obtain rfl := hcodes e he
  refine .answer .current .instantiate contract (Engine.creation caller message) (fun _ => []) ?_
  intro front c c' held trace r _ g hf h ho hu
  obtain ⟨m, -, -, hfounded⟩ := Engine.creation_eval_ok h
  exact of_keyspace hf ho (fun _ => hu ▸ .of_founded hfounded)

theorem migrate : ∀ e ∈ codes, ∀ contract message,
    Run.Keeps Provides (e.migrate contract message) := by
  intro e he contract message
  obtain rfl := hcodes e he
  refine .answer .current .migrate contract (Engine.current.migration message)
    (fun p => Engine.migrationData p.2.status (if p.1.toBool then p.2.applied else [])) ?_
  intro front c c' held trace r _ g hf h ho hu
  exact of_keyspace hf ho (fun hp => hu ▸ hp.migration h)

theorem creation (limit : Nat) (codeId : Int) (sender : String) (message : Json)
    (funds : List Coin) (label : Json) (admin : Option String) :
    Run.Keeps Provides (App.creation limit codes codeId sender message funds label admin) :=
  .creation transfers (execute hcodes) record limit codeId sender message funds label admin number
    (instantiate hcodes)

theorem execution (limit : Nat) (sender contract : String) (message : Json) (funds : List Coin) :
    Run.Keeps Provides (App.execution limit codes sender contract message funds) :=
  .execution transfers (execute hcodes) limit sender contract message funds

theorem migration (limit : Nat) (sender contract : String) (codeId : Int) (message : Json) :
    Run.Keeps Provides (App.migration limit codes sender contract codeId message) :=
  .migration transfers (execute hcodes) record limit sender contract codeId message
    (migrate hcodes)

end Provides

theorem Provided.invariant : Invariant Provided where
  empty := .of_empty
  balances hm hr := Provides.of_bank (fun hb => hr.balanced hb (Coin.merge_eq_ok hm).1) hr.outside
  creation := Provides.creation
  execution := Provides.execution
  migration := Provides.migration

inductive App.Established : App → Prop where
  | holding {c : Content} {engines : List Engine} (he : Released engines) (hc : Provided c) :
      Established (holding c engines)

namespace App.Established

theorem of_holds {app : App} (h : app.Holds Provided) : app.Established := by
  obtain ⟨c, engines, rfl, he, hc⟩ := h
  exact .holding he hc

theorem start : start.Established := of_holds Provided.invariant.start

theorem afterAll {app : App} (h : app.Established) {ops : List Operation}
    (hops : ∀ e, .storeCode e ∈ ops → e = Engine.current) : (app.afterAll ops).Established := by
  obtain ⟨he, hc⟩ := h
  exact of_holds (Provided.invariant.afterAll ⟨_, _, rfl, he, hc⟩ hops)

end App.Established

end DonationLedger.Host
