import DonationLedger.Proofs.Host.Operation

namespace DonationLedger.Host

open Bank (Balanced supply books)

def Conserves (c c' : Content) : Prop :=
  Balanced c → Balanced c' ∧ ∀ denom, supply denom c' = supply denom c

namespace Conserves

instance : IsPreorder Content Conserves where
  refl _ h := ⟨h, fun _ => rfl⟩
  trans a b c hab hbc ha := by
    obtain ⟨hb, hs⟩ := hab ha
    obtain ⟨hc, ht⟩ := hbc hb
    exact ⟨hc, fun denom => (ht denom).trans (hs denom)⟩

theorem of_books {c c' : Content} (h : books c' = books c) : Conserves c c' :=
  fun hb => ⟨hb.congr h, Bank.supply_congr h⟩

theorem transfers : Run.Transfers Conserves :=
  fun _ _ _ _ _ h hb => Bank.send_supply h hb

theorem answer {γ : Type} (e : Engine) (entry : Family) (contract : String)
    (p : Program (Except Fault Response × γ))
    (data : Except Fault Response × γ → List (String × Json)) :
    Run.Keeps Conserves (Run.answer contract (fun held s =>
      ((e.transact entry held p s).1.map (fun r => Engine.replyOf r.1 (data r)),
        (e.transact entry held p s).2))) := by
  refine .answer e entry contract p data (fun front c c' _ _ _ _ _ hf _ ho _ => of_books ?_)
  exact Content.under_congr (fun k => ho _ (rest?_bank hf k))

theorem save {α : Type} {slot : Slot α} (h : Content.rest? Bank.front slot.bytes = none) (a : α) :
    Run.Keeps Conserves (Run.perform (slot.save a)) := by
  refine .perform (fun g g' u hs => ?_)
  obtain ⟨b, -, rfl⟩ := Slot.save_eval_ok hs
  exact of_books (Content.under_insert_of_rest? h _ b)

variable {codes : List Entries} {engines : List Engine}
  (hc : codes = engines.map (fun e => (Build.engine e).entries))

include hc

theorem execute : ∀ e ∈ codes, ∀ contract caller message,
    Run.Keeps Conserves (e.execute contract caller message) := by
  intro e he contract caller message
  obtain ⟨e, -, rfl⟩ := List.mem_map.1 (hc ▸ he)
  exact answer e .execute contract (Engine.execution caller message) (fun _ => [])

theorem instantiate : ∀ e ∈ codes, ∀ contract caller message,
    Run.Keeps Conserves (e.instantiate contract caller message) := by
  intro e he contract caller message
  obtain ⟨e, -, rfl⟩ := List.mem_map.1 (hc ▸ he)
  exact answer e .instantiate contract (Engine.creation caller message) (fun _ => [])

theorem migrate : ∀ e ∈ codes, ∀ contract message,
    Run.Keeps Conserves (e.migrate contract message) := by
  intro e he contract message
  obtain ⟨e, -, rfl⟩ := List.mem_map.1 (hc ▸ he)
  exact answer e .migrate contract (e.migration message) _

theorem creation (limit : Nat) (codeId : Int) (sender : String) (message : Json)
    (funds : List Coin) (label : Json) (admin : Option String) :
    Run.Keeps Conserves
      (App.creation limit codes codeId sender message funds label admin) :=
  .creation transfers (execute hc) (fun contract => save (bank_rest?_record contract)) limit codeId
    sender message funds label admin (save bank_rest?_sequence) (instantiate hc)

theorem execution (limit : Nat) (sender contract : String) (message : Json) (funds : List Coin) :
    Run.Keeps Conserves (App.execution limit codes sender contract message funds) :=
  .execution transfers (execute hc) limit sender contract message funds

theorem migration (limit : Nat) (sender contract : String) (codeId : Int) (message : Json) :
    Run.Keeps Conserves (App.migration limit codes sender contract codeId message) :=
  .migration transfers (execute hc) (fun contract => save (bank_rest?_record contract)) limit sender
    contract codeId message (migrate hc)

end Conserves

def Operation.Accounts (app : App) : Operation → Prop
  | .initBalance address amount =>
      match (app.initBalance address amount).result with
      | .error _ => (app.after (.initBalance address amount)).root.content = app.root.content
      | .ok _ => ∃ merged, Coin.merge amount = .ok merged
          ∧ Bank.shown address (app.after (.initBalance address amount)).root.content = .ok merged
          ∧ ∀ k, k ≠ (Bank.slot address).bytes →
            (app.after (.initBalance address amount)).root.content.get? k
              = app.root.content.get? k
  | op => ∀ denom, supply denom (app.after op).root.content = supply denom app.root.content

theorem operation_accounts {c : Content} (hb : Balanced c) (engines : List Engine)
    (op : Operation) :
    op.Accounts (App.holding c engines) ∧ ∃ c' engines',
      (App.holding c engines).after op = App.holding c' engines' ∧ Balanced c' := by
  have hc := App.entries_holding c engines
  have hkept {op : Operation} {app : App} {c' : Content}
      (hop : (App.holding c engines).after op = app) (ha : app = App.holding c' engines)
      (hr : Conserves c c') :
      (∀ denom, supply denom ((App.holding c engines).after op).root.content
          = supply denom (App.holding c engines).root.content)
        ∧ ∃ c' engines', (App.holding c engines).after op = App.holding c' engines'
          ∧ Balanced c' := by
    obtain ⟨hb', hs⟩ := hr hb
    rw [hop, ha]
    exact ⟨hs, c', engines, rfl, hb'⟩
  cases op with
  | storeCode e =>
      have ha := App.after_storeCode c engines e
      refine ⟨fun denom => ?_, c, _, ha, hb⟩
      rw [ha]
      rfl
  | initBalance address amount =>
      rcases App.after_initBalance c engines address amount with
        ⟨r, hr, ha⟩ | ⟨merged, c', hr, ha, hm, hre⟩
      · refine ⟨?_, c, engines, ha, hb⟩
        simp only [Operation.Accounts, hr, ha]
      · refine ⟨?_, c', engines, ha, hre.balanced hb (Coin.merge_eq_ok hm).1⟩
        simp only [Operation.Accounts, hr, ha]
        refine ⟨merged, hm, hre.shown, fun k hk => ?_⟩
        obtain ⟨b, -, rfl⟩ := hre
        exact (Bank.slot address).get?_insert_ne hk c b
  | instantiate limit codeId sender message funds label admin =>
      obtain ⟨c', ha, hr⟩ := App.atomic_keeps
        (Conserves.creation hc limit codeId sender message funds label admin) c engines
      exact hkept rfl ha hr
  | execute limit sender contract message funds =>
      obtain ⟨c', ha, hr⟩ := App.atomic_keeps
        (Conserves.execution hc limit sender contract message funds) c engines
      exact hkept rfl ha hr
  | migrate limit sender contract codeId message =>
      obtain ⟨c', ha, hr⟩ := App.atomic_keeps
        (Conserves.migration hc limit sender contract codeId message) c engines
      exact hkept rfl ha hr
  | query contract message =>
      have ha := App.after_query c engines contract message
      refine ⟨fun denom => ?_, c, engines, ha, hb⟩
      rw [ha]

theorem balanced_empty : Balanced .empty := by
  intro k v h
  rw [books, Content.get?_under] at h
  cases h

theorem afterAll_balanced {c : Content} (hb : Balanced c) (engines : List Engine)
    (ops : List Operation) :
    ∃ c' engines', (App.holding c engines).afterAll ops = App.holding c' engines'
      ∧ Balanced c' := by
  induction ops generalizing c engines with
  | nil => exact ⟨c, engines, rfl, hb⟩
  | cons op ops ih =>
      obtain ⟨-, c₁, engines₁, ha, hb₁⟩ := operation_accounts hb engines op
      obtain ⟨c₂, engines₂, hrest, hb₂⟩ := ih hb₁ engines₁
      refine ⟨c₂, engines₂, ?_, hb₂⟩
      rw [← hrest, ← ha]
      rfl

theorem coins_conserved (ops : List Operation) (op : Operation) :
    Balanced (App.start.afterAll ops).root.content ∧ op.Accounts (App.start.afterAll ops) := by
  obtain ⟨c, engines, ha, hb⟩ := afterAll_balanced balanced_empty [] ops
  have hstart : App.start.afterAll ops = App.holding c engines := ha
  rw [hstart]
  exact ⟨hb, (operation_accounts hb engines op).1⟩

end DonationLedger.Host
