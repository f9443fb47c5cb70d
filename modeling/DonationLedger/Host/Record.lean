import DonationLedger.Slot

namespace DonationLedger.Host

structure Record where
  codeId : Int
  label : String
  admin : Option String
  deriving DecidableEq, Repr

namespace Record

def shape : Shape Record where
  form := .record [
    ("code_id", .whole, none),
    ("label", .text, some (.str "")),
    ("admin", .nullable .text, some .null)]
  read _ v := do
    let ms ← v.members?
    let codeId ← Json.field? Json.toInt? ms "code_id"
    let label ← Json.fieldOr? "" Json.toText? ms "label"
    let admin ← Json.fieldOr? none (Json.nullable? Json.toText?) ms "admin"
    some { codeId, label, admin }
  write r := .obj [
    ("code_id", .int r.codeId),
    ("label", .str r.label),
    ("admin", (Shape.nullable Shape.text).write r.admin)]

def slot (contract : String) : Slot Record := Slot.under "contracts" contract shape

end Record

def sequence : Slot Int := ⟨"contract_seq", Shape.int⟩

def addressOf (number : Int) : String := "contract" ++ toString number

end DonationLedger.Host
