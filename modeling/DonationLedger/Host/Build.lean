import DonationLedger.Engine
import DonationLedger.Script

namespace DonationLedger.Host

inductive Part where
  | runs (script : Script) (data : List (String × Json))
  | fails (failure : Failure)

def Part.answer (s : Session) : Part → Answered Reply
  | runs script data =>
      let (r, t) := script.perform.run (.ok []) s
      (r.map (fun response => ⟨.ok (some response), data⟩), t)
  | fails failure => (.ok ⟨.error failure, []⟩, s)

inductive Build where
  | engine (e : Engine)
  | script (parts : Family → Part)

namespace Build

def instantiate (held : Except Fault (List Coin)) (caller : Caller) (payload : Json) (s : Session) :
    Build → Answered Reply
  | engine e => e.instantiate held caller payload s
  | script parts => (parts .instantiate).answer s

def execute (held : Except Fault (List Coin)) (caller : Caller) (payload : Json) (s : Session) :
    Build → Answered Reply
  | engine e => e.execute held caller payload s
  | script parts => (parts .execute).answer s

def migrate (held : Except Fault (List Coin)) (payload : Json) (s : Session) :
    Build → Answered Reply
  | engine e => e.migrate held payload s
  | script parts => (parts .migrate).answer s

def query (held : Except Fault (List Coin)) (payload : Json) (s : Session) :
    Build → Answered Reply
  | engine e => e.query held payload s
  | script parts => (parts .query).answer s

end Build

end DonationLedger.Host
