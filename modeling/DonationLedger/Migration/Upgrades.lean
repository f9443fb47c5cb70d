import DonationLedger.Contract.Instantiate
import DonationLedger.Migration.Registry

namespace DonationLedger.Upgrades

def counterSlot : Slot Int := ⟨"counter", Shape.int⟩
def minimalDonationSlot : Slot Coin := ⟨"minimal_donation", Coin.shape⟩
def ownerSlot : Slot String := ⟨"owner", Shape.text⟩

def foldSlots : Action Response := do
  let counter ← counterSlot.load
  let minimalDonation ← minimalDonationSlot.load
  let owner ← ownerSlot.load
  if counter < 0 ∨ counterLimit < counter then Action.fail .misshapen
  else
    PlainState.slot.save { counter, minimalDonation, owner }
    counterSlot.erase
    minimalDonationSlot.erase
    ownerSlot.erase
    pure (Response.empty.note "upgraded" "0.1.0->0.2.0")

def addCountdown (m : MigrateMessage) : Action Response := do
  let old ← PlainState.slot.load
  let countdown ← configureParent m.parent
  State.slot.save
    { counter := old.counter, minimalDonation := old.minimalDonation, owner := old.owner,
      countdown }
  let response := Response.empty.note "upgraded" "0.2.0->0.3.0"
  pure (match m.parent with
    | some p => response.note "parent" p.address
    | none => response)

def released : Registry :=
  ⟨[⟨"0.1.0", "0.2.0", fun _ => foldSlots⟩, ⟨"0.2.0", "0.3.0", addCountdown⟩]⟩

end DonationLedger.Upgrades
