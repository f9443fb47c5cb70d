import DonationLedger.Contract.Address
import DonationLedger.Host.Bank
import DonationLedger.Host.Build
import DonationLedger.Host.Record

namespace DonationLedger.Host

structure Event where
  contract : String
  entry : Family
  attributes : List Attribute

def Event.attribute? (e : Event) (key : String) : Option String :=
  (e.attributes.find? (·.key == key)).map (·.value)

structure Ledger where
  session : Session
  events : List Event

abbrev Run (α : Type) := ExceptT Rejection (StateM Ledger) α

namespace Run

variable {α : Type}

def reject (r : Rejection) : Run α := fun l => (.error r, l)

def ofExcept (r : Except Fault α) : Run α :=
  match r with
  | .ok a => pure a
  | .error f => reject (.fault f)

def perform (a : Action α) : Run α := fun l =>
  match a.run (.ok []) l.session with
  | (.ok v, session) => (.ok v, { l with session })
  | (.error f, session) => (.error (.fault f), { l with session })

def balance (address : String) : Run (Except Fault (List Coin)) := fun l =>
  (.ok ((Bank.holdings address).run (.ok []) l.session).1, l)

def keyspace (contract : String) : String := "contract/" ++ contract

def within (contract : String) (call : Session → Answered α) : Run α := fun l =>
  match Store.viewOf (keyspace contract) l.session.store with
  | .error f => (.error (.fault f), l)
  | .ok view =>
      let (r, s) := call { l.session with store := view }
      let l := { l with session := { s with store := s.store.inner } }
      match r with
      | .ok a => (.ok a, l)
      | .error f => (.error (.fault f), l)

def answer (contract : String) (call : Except Fault (List Coin) → Session → Answered Reply) :
    Run Reply := do
  let held ← balance contract
  within contract (call held)

def noteEvent (e : Event) : Run Unit := fun l => (.ok (), { l with events := l.events ++ [e] })

end Run

structure Entries where
  instantiate : String → Caller → Json → Run Reply
  execute : String → Caller → Json → Run Reply
  migrate : String → Json → Run Reply
  query : String → Json → Run Reply

def Build.entries (b : Build) : Entries where
  instantiate contract caller message :=
    Run.answer contract (fun held s => b.instantiate held caller message s)
  execute contract caller message :=
    Run.answer contract (fun held s => b.execute held caller message s)
  migrate contract message := Run.answer contract (fun held s => b.migrate held message s)
  query contract message := Run.answer contract (fun held s => b.query held message s)

def code (codes : List Entries) (id : Int) : Run Entries :=
  match if 1 ≤ id then codes[(id - 1).toNat]? else none with
  | some e => pure e
  | none => Run.reject (.unknownCode id)

def record (contract : String) : Run Record := do
  match ← Run.perform (Record.slot contract).load? with
  | some r => pure r
  | none => Run.reject (.unknownContract contract)

def transfer (sender recipient : String) (amount : List Coin) : Run Unit := do
  match ← Run.perform (Bank.send sender recipient amount) with
  | none => pure ()
  | some s => Run.reject (.insufficientFunds s)

def validAddress (address : String) : Run String :=
  match Address.validate address with
  | .ok a => pure a
  | .error f => Run.reject (.fault (.address f))

def accept (sender contract : String) (funds : List Coin) : Run Caller := do
  transfer sender contract funds
  let sender ← validAddress sender
  pure { sender, funds }

def absorb (contract : String) (entry : Family) (reply : Reply) : Run (List Effect) :=
  match reply.answer with
  | .error failure => Run.reject (.executionFailed contract entry failure)
  | .ok response => do
      let response := response.getD Response.empty
      Run.noteEvent ⟨contract, entry, response.attributes⟩
      pure response.effects

def invoke (codes : List Entries) (sender contract : String) (message : Json)
    (funds : List Coin) : Run (List Effect) := do
  let r ← record contract
  let e ← code codes r.codeId
  let caller ← accept sender contract funds
  let reply ← e.execute contract caller message
  absorb contract .execute reply

structure Request where
  contract : String
  effect : Effect

def requests (contract : String) (effects : List Effect) : List Request :=
  effects.map (fun e => ⟨contract, e⟩)

def runEffect (codes : List Entries) (r : Request) : Run (List Request) :=
  match r.effect with
  | .bankSend receiver amount => do
      transfer r.contract receiver amount
      pure []
  | .wasmExecute contract message funds => do
      let effects ← invoke codes r.contract contract message funds
      pure (requests contract effects)
  | .stray _ _ => Run.reject (.unsupportedEffect "Attribute")

def cascade (codes : List Entries) : Nat → List Request → Run Unit
  | _, [] => pure ()
  | 0, _ :: _ => Run.reject .unfinished
  | limit + 1, r :: rest => do
      let further ← runEffect codes r
      cascade codes limit (further ++ rest)

end DonationLedger.Host
