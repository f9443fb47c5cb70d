import DonationLedger.Coin.Basic
import DonationLedger.Store.Basic

namespace DonationLedger

inductive Program (α : Type) where
  | done (a : α)
  | read (key : Bytes) (next : Except Fault (Option Bytes) → Program α)
  | write (key : Bytes) (value : Option Bytes) (next : Except Fault Unit → Program α)
  | holdings (next : Except Fault (List Coin) → Program α)
  | emit (line : String) (next : Program α)

structure Session where
  store : Store
  trace : List String

namespace Program

variable {α β : Type}

def bind : Program α → (α → Program β) → Program β
  | done a, f => f a
  | read k next, f => read k (fun r => (next r).bind f)
  | write k v next, f => write k v (fun r => (next r).bind f)
  | holdings next, f => holdings (fun r => (next r).bind f)
  | emit line next, f => emit line (next.bind f)

instance : Monad Program where
  pure := done
  bind := bind

theorem bind_eq (p : Program α) (f : α → Program β) : p >>= f = p.bind f := rfl

theorem bind_done (p : Program α) : p.bind done = p := by
  induction p with
  | done a => rfl
  | read k next ih => exact congrArg (read k) (funext ih)
  | write k v next ih => exact congrArg (write k v) (funext ih)
  | holdings next ih => exact congrArg holdings (funext ih)
  | emit line next ih => exact congrArg (emit line) ih

theorem bind_assoc {γ : Type} (p : Program α) (f : α → Program β) (g : β → Program γ) :
    (p.bind f).bind g = p.bind (fun a => (f a).bind g) := by
  induction p with
  | done a => rfl
  | read k next ih => exact congrArg (read k) (funext ih)
  | write k v next ih => exact congrArg (write k v) (funext ih)
  | holdings next ih => exact congrArg holdings (funext ih)
  | emit line next ih => exact congrArg (emit line) ih

instance : LawfulMonad Program :=
  LawfulMonad.mk' Program bind_done (fun _ _ => rfl) bind_assoc

def run (held : Except Fault (List Coin)) : Program α → Session → α × Session
  | done a, s => (a, s)
  | read k next, s => (next (s.store.get k)).run held s
  | write k v next, s =>
      match s.store.put k v with
      | .ok store => (next (.ok ())).run held { s with store }
      | .error f => (next (.error f)).run held s
  | holdings next, s => (next held).run held s
  | emit line next, s => next.run held { s with trace := s.trace ++ [line] }

theorem run_bind (held : Except Fault (List Coin)) (p : Program α) (f : α → Program β)
    (s : Session) :
    (p.bind f).run held s = (f (p.run held s).1).run held (p.run held s).2 := by
  induction p generalizing s with
  | done a => rfl
  | read k next ih => exact ih _ _
  | write k v next ih =>
      simp only [bind, run]
      cases s.store.put k v with
      | ok store => exact ih _ _
      | error f => exact ih _ _
  | holdings next ih => exact ih _ _
  | emit line next ih => exact ih _

end Program

abbrev Action (α : Type) := ExceptT Fault Program α

namespace Action

variable {α : Type}

def program (a : Action α) : Program (Except Fault α) := ExceptT.run a

def fail (f : Fault) : Action α := (Program.done (.error f) : Program (Except Fault α))

def refuse (r : Refusal) : Action α := fail (.refusal r)

def ofExcept (r : Except Fault α) : Action α := (Program.done r : Program (Except Fault α))

def read (key : Bytes) : Action (Option Bytes) :=
  (Program.read key .done : Program (Except Fault (Option Bytes)))

def write (key : Bytes) (value : Bytes) : Action Unit :=
  (Program.write key (some value) .done : Program (Except Fault Unit))

def erase (key : Bytes) : Action Unit :=
  (Program.write key none .done : Program (Except Fault Unit))

def holdings : Action (List Coin) := (Program.holdings .done : Program (Except Fault (List Coin)))

def emit (line : String) : Action Unit :=
  (Program.emit line (.done (.ok ())) : Program (Except Fault Unit))

def run (held : Except Fault (List Coin)) (a : Action α) (s : Session) :
    Except Fault α × Session :=
  a.program.run held s

end Action

end DonationLedger
