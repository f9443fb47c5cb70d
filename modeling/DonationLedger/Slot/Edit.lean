import DonationLedger.Contract.Owner
import DonationLedger.Json.Sum
import DonationLedger.Slot

namespace DonationLedger

inductive Edit where
  | field (name : String) (v : Json)
  | value (v : Json)
  | add (v : Json)
  | requireOwner (caller : Json)

inductive Draft where
  | record (members : List (String × Json))
  | loose (v : Json)

namespace Draft

def ofJson : Json → Draft
  | .obj members => record members
  | v => loose v

def toJson (form : Form) : Draft → Json
  | record members => .obj (members.map (fun m => (m.1, form.settleField m.1 m.2)))
  | loose v => form.settle v

def looseHeight (form : Form) : Draft → Nat
  | record members => Json.membersHeight members
  | loose v =>
      match form, v with
      | .list _, .arr items => Json.itemsHeight items
      | _, v => v.height

def write (form : Form) (draft : Draft) : Except Fault Json :=
  if draft.looseHeight form ≤ Json.greatestHeight then .ok (draft.toJson form) else .error .tooDeep

def setField (form : Form) (name : String) (v : Json) : Draft → Except Fault Draft
  | record members =>
      if (form.field? name).isSome then
        .ok (record (members.map (fun m => if m.1 == name then (name, v) else m)))
      else .error (.badValue ("no field " ++ name))
  | loose _ => .error (.noField name)

def add (w : Json) : Draft → Except Fault Draft
  | loose v => loose <$> v.plus w
  | record _ => .error .wrongKind

def requireOwner (caller : Json) : Draft → Except Fault Unit
  | record members =>
      match caller, Json.member? members "owner" with
      | .str caller, some (.str owner) => Owner.require caller owner
      | caller, some owner =>
          if caller.text == owner.text then .ok ()
          else .error (.refusal (.unauthorized owner.display))
      | _, none => .error (.noField "owner")
  | loose _ => .error (.noField "owner")

def edit (form : Form) (draft : Draft) : Edit → Except Fault Draft
  | .field name v => draft.setField form name v
  | .value v => .ok (loose v)
  | .add v => draft.add v
  | .requireOwner caller => (draft.requireOwner caller).map (fun _ => draft)

def editAll (form : Form) (edits : List Edit) (draft : Draft) : Except Fault Draft :=
  edits.foldlM (edit form) draft

end Draft

namespace Slot

variable {α : Type}

def edit (slot : Slot α) (edits : List Edit) : Action Json := do
  let a ← slot.load
  let draft ← Action.ofExcept (Draft.editAll slot.shape.form edits (.ofJson (slot.shape.write a)))
  let v ← Action.ofExcept (draft.write slot.shape.form)
  slot.saveJson v
  pure v

end Slot

end DonationLedger
