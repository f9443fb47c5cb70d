import DonationLedger.Contract.State

namespace DonationLedger

open Number (Decimal)

inductive Family where
  | instantiate
  | execute
  | query
  | migrate
  deriving DecidableEq, Repr

def Family.name : Family → String
  | instantiate => "instantiate"
  | execute => "execute"
  | query => "query"
  | migrate => "migrate"

namespace Json

def closed? (names : List String) : Json → Option (List (String × Json))
  | obj members => if closed names members then some members else none
  | _ => none

def blank? (v : Json) : Option Unit := (closed? [] v).map (fun _ => ())

def toCounter? : Json → Option Int := toIntIn? 0 counterLimit

end Json

structure Parent where
  address : String
  period : Int
  part : Decimal
  deriving DecidableEq

namespace Parent

def ofJson? (v : Json) : Option Parent := do
  let ms ← v.closed? ["addr", "donating_period", "part"]
  let address ← Json.field? Json.toText? ms "addr"
  let period ← Json.field? Json.toCounter? ms "donating_period"
  let part ← Json.field? (Json.toDecimal? .payload) ms "part"
  some { address, period, part }

def toJson (p : Parent) : Json :=
  .obj [("addr", .str p.address), ("donating_period", .int p.period), ("part", .str p.part.text)]

end Parent

structure InstantiateMessage where
  counter : Int
  minimalDonation : Coin
  parent : Option Parent
  deriving DecidableEq

namespace InstantiateMessage

def ofJson? (v : Json) : Option InstantiateMessage := do
  let ms ← v.closed? ["counter", "minimal_donation", "parent"]
  let counter ← Json.fieldOr? 0 Json.toCounter? ms "counter"
  let minimalDonation ← Json.field? (Coin.shape.read .payload) ms "minimal_donation"
  let parent ← Json.fieldOr? none (Json.nullable? Parent.ofJson?) ms "parent"
  some { counter, minimalDonation, parent }

def toJson (m : InstantiateMessage) : Json :=
  .obj [
    ("counter", .int m.counter),
    ("minimal_donation", Coin.shape.write m.minimalDonation),
    ("parent", (m.parent.map Parent.toJson).getD .null)]

end InstantiateMessage

inductive Command where
  | donate
  | reset (counter : Int)
  | withdraw
  | withdrawTo (receiver : String) (funds : Option (List Coin))
  deriving DecidableEq

namespace Command

def only? {α : Type} (name : String) (read : Json → Option α) (v : Json) : Option α := do
  let ms ← v.closed? [name]
  Json.field? read ms name

def resetCounter? (v : Json) : Option Int := do
  let ms ← v.closed? ["counter"]
  Json.fieldOr? 0 Json.toCounter? ms "counter"

def destination? (v : Json) : Option (String × Option (List Coin)) := do
  let ms ← v.closed? ["receiver", "funds"]
  let receiver ← Json.field? Json.toText? ms "receiver"
  let funds ← Json.fieldOr? none (Json.nullable? (Coin.listShape.read .payload)) ms "funds"
  some (receiver, funds)

def donate? (v : Json) : Option Command := (only? "donate" Json.blank? v).map (fun _ => donate)

def reset? (v : Json) : Option Command := (only? "reset" resetCounter? v).map reset

def withdraw? (v : Json) : Option Command :=
  (only? "withdraw" Json.blank? v).map (fun _ => withdraw)

def withdrawTo? (v : Json) : Option Command :=
  (only? "withdraw_to" destination? v).map (fun p => withdrawTo p.1 p.2)

def ofJson? (v : Json) : Option Command :=
  (donate? v).or ((reset? v).or ((withdraw? v).or (withdrawTo? v)))

def toJson : Command → Json
  | donate => .obj [("donate", .obj [])]
  | reset counter => .obj [("reset", .obj [("counter", .int counter)])]
  | withdraw => .obj [("withdraw", .obj [])]
  | withdrawTo receiver funds =>
      .obj [("withdraw_to", .obj [
        ("receiver", .str receiver),
        ("funds", (Shape.nullable Coin.listShape).write funds)])]

end Command

inductive Query where
  | value
  deriving DecidableEq

namespace Query

def ofJson? (v : Json) : Option Query := (Command.only? "value" Json.blank? v).map (fun _ => value)

def toJson : Query → Json
  | value => .obj [("value", .obj [])]

end Query

structure MigrateMessage where
  parent : Option Parent
  deriving DecidableEq

namespace MigrateMessage

/-- An empty payload of any kind counts as the empty object. -/
def ofJson? (v : Json) : Option MigrateMessage := do
  let ms ← (if v.isEmpty then .obj [] else v).closed? ["parent"]
  let parent ← Json.fieldOr? none (Json.nullable? Parent.ofJson?) ms "parent"
  some { parent }

def toJson (m : MigrateMessage) : Json :=
  .obj [("parent", (m.parent.map Parent.toJson).getD .null)]

end MigrateMessage

def Family.parse {α : Type} (family : Family) (read : Json → Option α) (payload : Json) :
    Except Fault α :=
  match read payload with
  | some m => .ok m
  | none => .error (.refusal (.invalidMessage family.name shapeReport))

end DonationLedger
