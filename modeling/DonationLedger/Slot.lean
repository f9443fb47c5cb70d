import DonationLedger.Program.Basic
import DonationLedger.Shape

namespace DonationLedger

structure Slot (α : Type) where
  key : String
  shape : Shape α

namespace Slot

variable {α : Type}

def bytes (slot : Slot α) : Bytes := Bytes.ofText slot.key

def under (space key : String) (shape : Shape α) : Slot α := ⟨space ++ "/" ++ key, shape⟩

def notFound (slot : Slot α) : Fault := .refusal (.notFound slot.key)

def corrupt (slot : Slot α) : Fault := .refusal (.corrupt slot.key shapeReport)

def misshapen (slot : Slot α) : Fault := .refusal (.storage slot.key .misshapen)

def decode (slot : Slot α) (b : Bytes) : Except Fault α :=
  match slot.shape.decode b with
  | some a => .ok a
  | none => .error slot.corrupt

def encodeJson (slot : Slot α) (v : Json) : Except Fault Bytes :=
  if (slot.shape.decode v.toBytes).isSome then .ok v.toBytes else .error slot.misshapen

def encode (slot : Slot α) (a : α) : Except Fault Bytes := slot.encodeJson (slot.shape.write a)

def load? (slot : Slot α) : Action (Option α) := do
  match ← Action.read slot.bytes with
  | none => pure none
  | some b => some <$> Action.ofExcept (slot.decode b)

def load (slot : Slot α) : Action α := do
  match ← Action.read slot.bytes with
  | none => Action.fail slot.notFound
  | some b => Action.ofExcept (slot.decode b)

def isSet (slot : Slot α) : Action Bool := Option.isSome <$> Action.read slot.bytes

def saveJson (slot : Slot α) (v : Json) : Action Unit := do
  let b ← Action.ofExcept (slot.encodeJson v)
  Action.write slot.bytes b

def save (slot : Slot α) (a : α) : Action Unit := slot.saveJson (slot.shape.write a)

def erase (slot : Slot α) : Action Unit := Action.erase slot.bytes

def update (slot : Slot α) (change : α → Except Fault α) : Action α := do
  let a ← slot.load
  let b ← Action.ofExcept (change a)
  slot.save b
  pure b

def present? (slot : Slot α) (a : Option α) : Option α :=
  a.filter (fun a => !(slot.shape.write a).isNull)

def loadEntry (slot : Slot α) : Action α := do
  match slot.present? (← slot.load?) with
  | some a => pure a
  | none => Action.fail slot.notFound

def saveUnchecked (slot : Slot α) (v : Json) : Action Unit :=
  slot.saveJson (slot.shape.form.arrange v)

end Slot

end DonationLedger
