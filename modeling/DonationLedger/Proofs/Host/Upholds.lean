import DonationLedger.Proofs.Contract.Charter
import DonationLedger.Proofs.Host.Keeps
import DonationLedger.Proofs.Host.Supply

namespace DonationLedger.Host

structure Upholds (c c' : Content) : Prop where
  number : c'.get? sequence.bytes = c.get? sequence.bytes
  keyspaces : ∀ contract front, front? contract = some front →
    Abides (c.under front) (c'.under front)

namespace Upholds

theorem refl (c : Content) : Upholds c c := ⟨rfl, fun _ _ _ => .refl _⟩

theorem trans {a b c : Content} (h : Upholds a b) (g : Upholds b c) : Upholds a c := by
  refine ⟨g.number.trans h.number, fun contract front hf => ?_⟩
  exact (h.keyspaces contract front hf).trans (g.keyspaces contract front hf)

instance : IsPreorder Content Upholds where
  refl := refl
  trans _ _ _ := trans

variable {c c' : Content} {contract : String} {front : Bytes}

theorem of_bank (ho : c.AgreesOutside Bank.front c') : Upholds c c' := by
  refine ⟨ho _ bank_rest?_sequence, fun contract front hf => ?_⟩
  rw [Content.under_congr (fun k => ho _ (bank_rest?_front hf k))]
  exact .refl _

theorem transfers : Run.Transfers Upholds :=
  fun _ _ _ _ _ h => of_bank (Bank.send_outside h)

theorem of_keyspace (hf : front? contract = some front) (ho : c.AgreesOutside front c')
    (h : Abides (c.under front) (c'.under front)) : Upholds c c' := by
  refine ⟨ho _ (rest?_sequence hf), fun other p hp => ?_⟩
  by_cases heq : other = contract
  · subst heq
    obtain rfl := Option.some.inj (hp.symm.trans hf)
    exact h
  · rw [Content.under_congr (fun k => ho _ (rest?_front hf hp (Ne.symm heq) k))]
    exact .refl _

theorem record (contract : String) (r : Record) :
    Run.Keeps Upholds (Run.perform ((Record.slot contract).save r)) := by
  refine .perform (fun g g' u h => ?_)
  obtain ⟨b, -, rfl⟩ := Slot.save_eval_ok h
  refine ⟨(Record.slot contract).get?_insert_ne (record_bytes_ne contract).symm _ b,
    fun other p hp => ?_⟩
  rw [Content.under_insert_of_rest? (rest?_record hp contract)]
  exact .refl _

variable {codes : List Entries} (hcodes : ∀ e ∈ codes, e = (Build.engine .current).entries)

include hcodes

theorem execute : ∀ e ∈ codes, ∀ contract caller message,
    Run.Keeps Upholds (e.execute contract caller message) := by
  intro e he contract caller message
  obtain rfl := hcodes e he
  refine .answer .current .execute contract (Engine.execution caller message) (fun _ => []) ?_
  intro front c c' held trace r _ g hf h ho hu
  exact of_keyspace hf ho (hu ▸ Abides.execution h)

theorem migrate : ∀ e ∈ codes, ∀ contract message,
    Run.Keeps Upholds (e.migrate contract message) := by
  intro e he contract message
  obtain rfl := hcodes e he
  refine .answer .current .migrate contract (Engine.current.migration message)
    (fun p => Engine.migrationData p.2.status (if p.1.toBool then p.2.applied else [])) ?_
  intro front c c' held trace r _ g hf h ho hu
  exact of_keyspace hf ho (hu ▸ Abides.migration h)

theorem execution (limit : Nat) (sender contract : String) (message : Json) (funds : List Coin) :
    Run.Keeps Upholds (App.execution limit codes sender contract message funds) :=
  .execution transfers (execute hcodes) limit sender contract message funds

theorem migration (limit : Nat) (sender contract : String) (codeId : Int) (message : Json) :
    Run.Keeps Upholds (App.migration limit codes sender contract codeId message) :=
  .migration transfers (execute hcodes) record limit sender contract codeId message
    (migrate hcodes)

end Upholds

end DonationLedger.Host
