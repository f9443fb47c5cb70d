import DonationLedger.Coin.Merge
import DonationLedger.Host.Fault
import DonationLedger.Slot

namespace DonationLedger.Host.Bank

def slot (address : String) : Slot (List Coin) := Slot.under "bank" address Coin.listShape

def holdings (address : String) : Action (List Coin) := do
  let held ← (slot address).load?
  pure (held.getD [])

def setBalance (address : String) (coins : List Coin) : Action Unit := do
  let merged ← Action.ofExcept (Coin.merge coins)
  (slot address).save merged

def held (denom : String) (coins : List Coin) : Int :=
  ((coins.find? (·.denom == denom)).map (·.amount)).getD 0

def withAmount : List Coin → Coin → List Coin
  | [], c => [c]
  | t :: ts, c => if t.denom = c.denom then c :: ts else t :: withAmount ts c

/-- One coin per denomination, of several the last. -/
def distinct (coins : List Coin) : List Coin := coins.foldl withAmount []

def debitOne (address : String) (coins : List Coin) (c : Coin) : Except Shortage (List Coin) :=
  let amount := held c.denom coins
  if amount < c.amount then .error ⟨address, c.denom, amount, c.amount⟩
  else .ok (withAmount coins ⟨c.denom, amount - c.amount⟩)

def debit (address : String) (coins amount : List Coin) : Except Shortage (List Coin) :=
  amount.foldlM (debitOne address) coins

def send (sender recipient : String) (amount : List Coin) : Action (Option Shortage) := do
  let amount ← Action.ofExcept (Coin.merge amount)
  if amount.isEmpty then pure none
  else
    let coins ← holdings sender
    match debit sender (distinct coins) amount with
    | .error s => pure (some s)
    | .ok rest =>
        setBalance sender rest
        let coins ← holdings recipient
        setBalance recipient (coins ++ amount)
        pure none

end DonationLedger.Host.Bank
