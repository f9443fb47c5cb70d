import DonationLedger.Host.Call

namespace DonationLedger.Host

structure App where
  root : Store
  codes : List Build

structure Outcome (α : Type) where
  result : Except Rejection α
  app : App
  trace : List String

structure AppResponse where
  events : List Event
  data : List (String × Json)

def AppResponse.eventsFor (r : AppResponse) (contract : String) : List Event :=
  r.events.filter (·.contract == contract)

namespace App

variable {α : Type}

def storeCode (app : App) (b : Build) : Int × App :=
  (app.codes.length + 1, { app with codes := app.codes ++ [b] })

/-- Runs on the root itself; what was written stays also when the run is rejected. -/
def direct (app : App) (p : Run α) : Outcome α :=
  let (result, l) := p ⟨⟨app.root, []⟩, []⟩
  ⟨result, { app with root := l.session.store }, l.session.trace⟩

def atomic (app : App) (p : Run α) : Outcome α :=
  let (result, l) := p ⟨⟨app.root.overlayOf, []⟩, []⟩
  let store := l.session.store
  match result with
  | .error r => ⟨.error r, { app with root := store.discard.inner }, l.session.trace⟩
  | .ok a =>
      match store.commit with
      | .ok store => ⟨.ok a, { app with root := store.inner }, l.session.trace⟩
      | .error f => ⟨.error (.fault f), { app with root := store.halted.inner }, l.session.trace⟩

def initBalance (app : App) (address : String) (amount : List Coin) : Outcome Unit :=
  app.direct (Run.perform (Bank.setBalance address amount))

def balance (app : App) (address : String) : Outcome (List Coin) :=
  app.direct (Run.perform (Bank.holdings address))

def contractInfo (app : App) (contract : String) : Outcome Record := app.direct (record contract)

def entries (app : App) : List Entries := app.codes.map Build.entries

def inquiry (codes : List Entries) (contract : String) (message : Json) :
    Run (List (String × Json)) := do
  let r ← record contract
  let e ← code codes r.codeId
  let reply ← e.query contract message
  match reply.answer with
  | .ok _ => pure reply.data
  | .error failure => Run.reject (.executionFailed contract .query failure)

def query (app : App) (contract : String) (message : Json) : Outcome (List (String × Json)) :=
  app.direct (inquiry app.entries contract message)

def cascadeLimit : Nat := 100000

def eventsOf : Run (List Event) := fun l => (.ok l.events, l)

def nextNumber : Run Int := do
  let latest ← Run.perform sequence.load?
  let number := latest.getD 0 + 1
  Run.perform (sequence.save number)
  pure number

def adminOf : Option String → Run (Option String)
  | none => pure none
  | some admin => if admin.isEmpty then pure none else some <$> validAddress admin

def labelOf : Json → Run String
  | .str label => pure label
  | _ => Run.reject (.fault .misshapen)

def creation (limit : Nat) (codes : List Entries) (codeId : Int) (sender : String)
    (message : Json) (funds : List Coin) (label : Json) (admin : Option String) : Run String := do
  let e ← code codes codeId
  let number ← nextNumber
  let contract := addressOf number
  let admin ← adminOf admin
  let label ← labelOf label
  Run.perform ((Record.slot contract).save { codeId, label, admin })
  let caller ← accept sender contract funds
  let reply ← e.instantiate contract caller message
  let effects ← absorb contract .instantiate reply
  cascade codes limit (requests contract effects)
  pure contract

def execution (limit : Nat) (codes : List Entries) (sender contract : String) (message : Json)
    (funds : List Coin) : Run AppResponse := do
  let effects ← invoke codes sender contract message funds
  cascade codes limit (requests contract effects)
  pure ⟨← eventsOf, []⟩

def migration (limit : Nat) (codes : List Entries) (sender contract : String) (codeId : Int)
    (message : Json) : Run AppResponse := do
  let r ← record contract
  if r.admin ≠ some sender then
    Run.reject (.adminRequired sender contract)
  else
    let e ← code codes codeId
    let payload := if message.isEmpty then .obj [] else message
    let reply ← e.migrate contract payload
    let effects ← absorb contract .migrate reply
    cascade codes limit (requests contract effects)
    Run.perform ((Record.slot contract).save { r with codeId })
    pure ⟨← eventsOf, reply.data⟩

def instantiateWithin (limit : Nat) (app : App) (codeId : Int) (sender : String) (message : Json)
    (funds : List Coin) (label : Json) (admin : Option String) : Outcome String :=
  app.atomic (creation limit app.entries codeId sender message funds label admin)

def executeWithin (limit : Nat) (app : App) (sender contract : String) (message : Json)
    (funds : List Coin) : Outcome AppResponse :=
  app.atomic (execution limit app.entries sender contract message funds)

def migrateWithin (limit : Nat) (app : App) (sender contract : String) (codeId : Int)
    (message : Json) : Outcome AppResponse :=
  app.atomic (migration limit app.entries sender contract codeId message)

def instantiate : App → Int → String → Json → List Coin → Json → Option String → Outcome String :=
  instantiateWithin cascadeLimit

def execute : App → String → String → Json → List Coin → Outcome AppResponse :=
  executeWithin cascadeLimit

def migrate : App → String → String → Int → Json → Outcome AppResponse :=
  migrateWithin cascadeLimit

end App

end DonationLedger.Host
