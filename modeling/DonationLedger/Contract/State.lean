import DonationLedger.Slot

namespace DonationLedger

open Number (Decimal)

def counterLimit : Int := Nat.pow 2 64 - 1

structure State where
  counter : Int
  minimalDonation : Coin
  owner : String
  /-- How many donations are left until the next one is forwarded, where there is a parent. -/
  countdown : Option Int
  deriving DecidableEq, Repr

namespace State

def shape : Shape State where
  form := .record [
    ("counter", .whole, none),
    ("minimal_donation", Coin.shape.form, none),
    ("owner", .text, none),
    ("donating_parent", .nullable .whole, some .null)]
  read origin v := do
    let ms ← v.members?
    let counter ← Json.field? (Json.toIntIn? 0 counterLimit) ms "counter"
    let minimalDonation ← Json.field? (Coin.shape.read origin) ms "minimal_donation"
    let owner ← Json.field? Json.toText? ms "owner"
    let countdown ←
      Json.fieldOr? none (Json.nullable? (Json.toIntIn? 0 counterLimit)) ms "donating_parent"
    some { counter, minimalDonation, owner, countdown }
  write s := .obj [
    ("counter", .int s.counter),
    ("minimal_donation", Coin.shape.write s.minimalDonation),
    ("owner", .str s.owner),
    ("donating_parent", (Shape.nullable Shape.int).write s.countdown)]

def slot : Slot State := ⟨"state", shape⟩

end State

structure PlainState where
  counter : Int
  minimalDonation : Coin
  owner : String
  deriving DecidableEq, Repr

namespace PlainState

def shape : Shape PlainState where
  form := .record [
    ("counter", .whole, none),
    ("minimal_donation", Coin.shape.form, none),
    ("owner", .text, none)]
  read origin v := do
    let ms ← v.members?
    let counter ← Json.field? (Json.toIntIn? 0 counterLimit) ms "counter"
    let minimalDonation ← Json.field? (Coin.shape.read origin) ms "minimal_donation"
    let owner ← Json.field? Json.toText? ms "owner"
    some { counter, minimalDonation, owner }
  write s := .obj [
    ("counter", .int s.counter),
    ("minimal_donation", Coin.shape.write s.minimalDonation),
    ("owner", .str s.owner)]

def slot : Slot PlainState := ⟨"state", shape⟩

end PlainState

structure Forwarding where
  address : String
  period : Int
  part : Decimal
  deriving DecidableEq

namespace Forwarding

def toPart? (origin : Origin) (v : Json) : Option Decimal :=
  (v.toDecimal? origin).filter Decimal.inUnit

def shape : Shape Forwarding where
  form := .record [
    ("address", .text, none),
    ("donating_parent_period", .whole, none),
    ("part", .decimal, none)]
  read origin v := do
    let ms ← v.members?
    let address ← Json.field? Json.toText? ms "address"
    let period ← Json.field? (Json.toIntIn? 1 counterLimit) ms "donating_parent_period"
    let part ← Json.field? (toPart? origin) ms "part"
    some { address, period, part }
  write f := .obj [
    ("address", .str f.address),
    ("donating_parent_period", .int f.period),
    ("part", .str f.part.text)]

def slot : Slot Forwarding := ⟨"parent_donation", shape⟩

end Forwarding

structure VersionTag where
  contract : String
  version : String
  deriving DecidableEq, Repr

namespace VersionTag

def shape : Shape VersionTag where
  form := .record [("contract", .text, none), ("version", .text, none)]
  read _ v := do
    let ms ← v.members?
    let contract ← Json.field? Json.toText? ms "contract"
    let version ← Json.field? Json.toText? ms "version"
    some { contract, version }
  write t := .obj [("contract", .str t.contract), ("version", .str t.version)]

def slot : Slot VersionTag := ⟨"contract_info", shape⟩

def current : VersionTag := ⟨"counting-contract", "0.3.0"⟩

end VersionTag

end DonationLedger
