import DonationLedger.Proofs.Host.Course
import DonationLedger.Proofs.Host.Provided

namespace DonationLedger.Host

inductive App.Waits (app : App) : List Request → Ledger → Prop where
  | created {codeId : Int} {sender contract : String} {message label : Json} {funds : List Coin}
      {admin : Option String} {waiting : List Request} {l : Ledger}
      (h : enrolling app.entries codeId sender message funds label admin app.opening
        = (.ok (contract, waiting), l)) : app.Waits waiting l
  | called {d : Delivery} {waiting : List Request} {l : Ledger}
      (h : calling app.entries d.sender d.contract d.message d.funds app.opening
        = (.ok waiting, l)) : app.Waits waiting l
  | moved {sender contract : String} {codeId : Int} {message : Json} {r : Record}
      {data : List (String × Json)} {waiting : List Request} {l : Ledger}
      (h : moving app.entries sender contract codeId message app.opening
        = (.ok (r, data, waiting), l)) : app.Waits waiting l
  | ran {r : Request} {waiting further : List Request} {l l' : Ledger}
      (hw : app.Waits (r :: waiting) l) (h : runEffect app.entries r l = (.ok further, l')) :
      app.Waits (further ++ waiting) l'

/-- The messages that a host hands over: those that it is called with, and those that contracts ask
for while a call is run. -/
inductive App.HandsOver (app : App) : Delivery → Ledger → Prop where
  | outside (d : Delivery) : app.HandsOver d app.opening
  | inside {d : Delivery} {waiting : List Request} {l : Ledger}
      (h : app.Waits (⟨d.sender, .wasmExecute d.contract d.message d.funds⟩ :: waiting) l) :
      app.HandsOver d l

structure Ledger.Provided (l : Ledger) : Prop where
  isOpen : l.session.store.isOpen = true
  content : Host.Provided l.content

theorem Run.Keeps.provided {α : Type} {m : Run α} (hm : m.Keeps Provides) {l l' : Ledger} {a : α}
    (hl : l.Provided) (h : m l = (.ok a, l')) : l'.Provided := by
  obtain ⟨hopen, hc⟩ := hm.ok hl.isOpen h
  exact ⟨hopen, hc hl.content⟩

namespace App

variable {app : App}

theorem Established.released (h : app.Established) :
    ∀ e ∈ app.entries, e = (Build.engine .current).entries := by
  obtain ⟨he, hc⟩ := h
  exact he.entries _

theorem Established.opening (h : app.Established) : app.opening.Provided := by
  obtain ⟨he, hc⟩ := h
  exact ⟨rfl, (content_opening _ _).symm ▸ hc⟩

theorem Waits.provided {waiting : List Request} {l : Ledger} (h : app.Waits waiting l)
    (ha : app.Established) : l.Provided := by
  have hcodes := ha.released
  have hexecute := Provides.execute hcodes
  induction h with
  | created h =>
      exact (Run.Keeps.enrolling Provides.transfers Provides.record Provides.number
        (Provides.instantiate hcodes) _ _ _ _ _ _).provided ha.opening h
  | called h =>
      exact (Run.Keeps.calling Provides.transfers hexecute _ _ _ _).provided ha.opening h
  | moved h =>
      exact (Run.Keeps.moving _ _ _ _ (Provides.migrate hcodes)).provided ha.opening h
  | ran hw h ih =>
      exact (Run.Keeps.runEffect Provides.transfers hexecute _).provided ih h

theorem HandsOver.provided {d : Delivery} {l : Ledger} (h : app.HandsOver d l)
    (ha : app.Established) : l.Provided := by
  cases h with
  | outside => exact ha.opening
  | inside h => exact h.provided ha

end App

end DonationLedger.Host
