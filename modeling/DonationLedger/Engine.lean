import DonationLedger.Contract.Execute
import DonationLedger.Migration.Dispatch
import DonationLedger.Migration.Upgrades

namespace DonationLedger

structure Engine where
  name : String
  version : String
  registry : Registry

abbrev Answered (α : Type) := Except Fault α × Session

namespace Engine

def current : Engine :=
  ⟨VersionTag.current.contract, VersionTag.current.version, Upgrades.released⟩

def tag (e : Engine) : VersionTag := ⟨e.name, e.version⟩

def okLine (e : Engine) (entry : Family) : String := "[" ++ e.name ++ "] " ++ entry.name ++ " ok"

def failedLine (e : Engine) (entry : Family) (f : Fault) : String :=
  "[" ++ e.name ++ "] " ++ entry.name ++ " failed: " ++ f.kind ++ ": " ++ f.text

def closingLine {α : Type} (e : Engine) (entry : Family) : Except Fault α → String
  | .ok _ => e.okLine entry
  | .error f => e.failedLine entry f

/-- Runs a program on an overlay. The program gives a response or a fault, and something more that
is kept in both cases. -/
def transact {β : Type} (e : Engine) (entry : Family) (held : Except Fault (List Coin))
    (p : Program (Except Fault Response × β)) (s : Session) :
    Answered (Except Fault Response × β) :=
  let ((r, b), t) := p.run held { s with store := s.store.overlayOf }
  match r with
  | .error f =>
      (.ok (.error f, b),
        { store := t.store.discard.inner, trace := t.trace ++ [e.failedLine entry f] })
  | .ok response =>
      match t.store.commit with
      | .ok store =>
          (.ok (.ok response, b), { store := store.inner, trace := t.trace ++ [e.okLine entry] })
      | .error f => (.error f, { t with store := t.store.halted.inner })

def replyOf (r : Except Fault Response) (data : List (String × Json)) : Reply :=
  match r with
  | .ok response => ⟨.ok (some response), data⟩
  | .error f => ⟨.error f.failure, data⟩

def handling {α : Type} (entry : Family) (read : Json → Option α) (handler : α → Action Response)
    (payload : Json) : Program (Except Fault Response × Unit) :=
  let a : Action Response := do
    let m ← Action.ofExcept (entry.parse read payload)
    handler m
  (·, ()) <$> a.program

def creation (caller : Caller) (payload : Json) : Program (Except Fault Response × Unit) :=
  handling .instantiate InstantiateMessage.ofJson? (DonationLedger.instantiate caller) payload

def execution (caller : Caller) (payload : Json) : Program (Except Fault Response × Unit) :=
  handling .execute Command.ofJson? (Command.perform caller) payload

def migration (e : Engine) (payload : Json) :
    Program (Except Fault Response × Migration.Progress) :=
  match Family.migrate.parse MigrateMessage.ofJson? payload with
  | .error f => .done (.error f, Migration.Progress.start)
  | .ok m => Migration.migrate e.registry e.tag m

def inquiry (payload : Json) : Action (List (String × Json)) := do
  let m ← Action.ofExcept (Family.query.parse Query.ofJson? payload)
  m.answer

def replyTo (r : Except Fault Response × Unit) : Reply := replyOf r.1 []

def migrationData (status : Migration.Status) (applied : List String) : List (String × Json) :=
  [("status", .str status.name), ("applied", .arr (applied.map .str))]

def migrationReply (r : Except Fault Response × Migration.Progress) : Reply :=
  replyOf r.1 (migrationData r.2.status (if r.1.toBool then r.2.applied else []))

def instantiate (e : Engine) (held : Except Fault (List Coin)) (caller : Caller) (payload : Json)
    (s : Session) : Answered Reply :=
  let (r, t) := e.transact .instantiate held (creation caller payload) s
  (r.map replyTo, t)

def execute (e : Engine) (held : Except Fault (List Coin)) (caller : Caller) (payload : Json)
    (s : Session) : Answered Reply :=
  let (r, t) := e.transact .execute held (execution caller payload) s
  (r.map replyTo, t)

def migrate (e : Engine) (held : Except Fault (List Coin)) (payload : Json) (s : Session) :
    Answered Reply :=
  let (r, t) := e.transact .migrate held (e.migration payload) s
  (r.map migrationReply, t)

def queryReply : Except Fault (List (String × Json)) → Reply
  | .ok data => ⟨.ok none, data⟩
  | .error f => ⟨.error f.failure, []⟩

def queryLines (e : Engine) : Except Fault (List (String × Json)) → List String
  | .ok _ => []
  | .error f => ["[" ++ e.name ++ "] query failed: " ++ f.kind]

def query (e : Engine) (held : Except Fault (List Coin)) (payload : Json) (s : Session) :
    Answered Reply :=
  let (r, t) := (inquiry payload).run held s
  (.ok (queryReply r), { t with trace := t.trace ++ e.queryLines r })

end Engine

end DonationLedger
