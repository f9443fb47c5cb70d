import DonationLedger.Json.Basic

namespace DonationLedger

inductive Form where
  | whole
  | text
  | decimal
  | nullable (form : Form)
  | list (form : Form)
  /-- Fields in order, each with the value that stands for a missing one, if any does. -/
  | record (fields : List (String × Form × Option Json))

namespace Form

def settle : Form → Json → Json
  | whole, v => v.counted
  | nullable form, v => form.settle v
  | list form, .arr items => .arr (items.map form.settle)
  | _, v => v

mutual

def arrange : Form → Json → Json
  | whole, v => v.counted
  | nullable _, .null => .null
  | nullable form, v => form.arrange v
  | list form, .arr items => .arr (items.map form.arrange)
  | record fields, .obj members => .obj (arrangeFields fields members)
  | _, v => v

def arrangeFields : List (String × Form × Option Json) → List (String × Json) →
    List (String × Json)
  | [], _ => []
  | (name, form, missing) :: fields, members =>
      match (Json.member? members name).map form.arrange, missing with
      | some v, _ => (name, v) :: arrangeFields fields members
      | none, some v => (name, v) :: arrangeFields fields members
      | none, none => arrangeFields fields members

end

def field? (name : String) : Form → Option Form
  | record fields => (fields.lookup name).map Prod.fst
  | _ => none

def settleField (form : Form) (name : String) (v : Json) : Json :=
  ((form.field? name).map (·.settle v)).getD v

end Form

end DonationLedger
