import DonationLedger.Proofs.Host.Run

namespace DonationLedger.Host.App

variable (limit : Nat) (codes : List Entries)

def enrolling (codeId : Int) (sender : String) (message : Json) (funds : List Coin) (label : Json)
    (admin : Option String) : Run (String × List Request) := do
  let e ← code codes codeId
  let number ← nextNumber
  let contract := addressOf number
  let admin ← adminOf admin
  let label ← labelOf label
  Run.perform ((Record.slot contract).save { codeId, label, admin })
  let caller ← accept sender contract funds
  let reply ← e.instantiate contract caller message
  let effects ← absorb contract .instantiate reply
  pure (contract, requests contract effects)

def calling (sender contract : String) (message : Json) (funds : List Coin) :
    Run (List Request) := do
  let effects ← invoke codes sender contract message funds
  pure (requests contract effects)

def moving (sender contract : String) (codeId : Int) (message : Json) :
    Run (Record × List (String × Json) × List Request) := do
  let r ← record contract
  if r.admin ≠ some sender then
    Run.reject (.adminRequired sender contract)
  else
    let e ← code codes codeId
    let payload := if message.isEmpty then .obj [] else message
    let reply ← e.migrate contract payload
    let effects ← absorb contract .migrate reply
    pure ({ r with codeId }, reply.data, requests contract effects)

theorem creation_eq_enrolling (codeId : Int) (sender : String) (message : Json)
    (funds : List Coin) (label : Json) (admin : Option String) :
    creation limit codes codeId sender message funds label admin
      = (do
        let (contract, waiting) ← enrolling codes codeId sender message funds label admin
        cascade codes limit waiting
        pure contract) := by
  simp only [creation, enrolling, bind_assoc, pure_bind]

theorem execution_eq_calling (sender contract : String) (message : Json) (funds : List Coin) :
    execution limit codes sender contract message funds
      = (do
        let waiting ← calling codes sender contract message funds
        cascade codes limit waiting
        pure ⟨← eventsOf, []⟩) := by
  simp only [execution, calling, bind_assoc, pure_bind]

theorem migration_eq_moving (sender contract : String) (codeId : Int) (message : Json) :
    migration limit codes sender contract codeId message
      = (do
        let (r, data, waiting) ← moving codes sender contract codeId message
        cascade codes limit waiting
        Run.perform ((Record.slot contract).save r)
        pure ⟨← eventsOf, data⟩) := by
  simp only [migration, moving, bind_assoc]
  refine congrArg (record contract >>= ·) (funext fun r => ?_)
  split
  · rfl
  · simp only [bind_assoc, pure_bind]

end DonationLedger.Host.App
