import DonationLedger.Form
import DonationLedger.Json.Reader
import DonationLedger.Json.Printer
import DonationLedger.Number.Numeral
import DonationLedger.Number.Whole

namespace DonationLedger

/-- Where a JSON value comes from: a caller's message, or bytes in a store. -/
inductive Origin where
  | payload
  | stored
  deriving DecidableEq, Repr

namespace Json

open Number (Binary64 Decimal)

def toText? : Json → Option String
  | str s => some s
  | _ => none

/-- A truth value counts as 0 or 1, and a text or a number with a fraction as the whole number that
it spells. -/
def toInt? : Json → Option Int
  | int n => some n
  | bool b => some (if b then 1 else 0)
  | real x => x.toInt?
  | str s => Number.Whole.ofChars? s.toList
  | _ => none

/-- A number with a fraction or an exponent counts by its shortest text: as it is in a message, and
positional without an empty fraction in a store. -/
def toDecimal? (origin : Origin) : Json → Option Decimal
  | int n => Decimal.make? (n < 0) n.natAbs 0
  | real x =>
      match origin with
      | .payload => Decimal.ofChars? x.text
      | .stored => Decimal.ofChars? x.plainText
  | str s => Decimal.ofChars? s.toList
  | _ => none

def toIntIn? (low high : Int) (v : Json) : Option Int :=
  v.toInt?.filter (fun n => low ≤ n && n ≤ high)

def nullable? {α : Type} (read : Json → Option α) : Json → Option (Option α)
  | null => some none
  | v => (read v).map some

def list? {α : Type} (read : Json → Option α) : Json → Option (List α)
  | arr items => items.mapM read
  | _ => none

def members? : Json → Option (List (String × Json))
  | obj members => some members
  | _ => none

def field? {α : Type} (read : Json → Option α) (members : List (String × Json)) (name : String) :
    Option α :=
  (member? members name).bind read

def fieldOr? {α : Type} (missing : α) (read : Json → Option α) (members : List (String × Json))
    (name : String) : Option α :=
  match member? members name with
  | some v => read v
  | none => some missing

end Json

structure Shape (α : Type) where
  form : Form
  read : Origin → Json → Option α
  write : α → Json

namespace Shape

variable {α : Type}

def int : Shape Int where
  form := .whole
  read _ := Json.toInt?
  write := .int

def text : Shape String where
  form := .text
  read _ := Json.toText?
  write := .str

def nullable (shape : Shape α) : Shape (Option α) where
  form := .nullable shape.form
  read origin := Json.nullable? (shape.read origin)
  write
    | some a => shape.write a
    | none => .null

def list (shape : Shape α) : Shape (List α) where
  form := .list shape.form
  read origin := Json.list? (shape.read origin)
  write as := .arr (as.map shape.write)

def encode (shape : Shape α) (a : α) : Bytes := (shape.write a).toBytes

def decode (shape : Shape α) (b : Bytes) : Option α := (Json.ofBytes? b).bind (shape.read .stored)

end Shape

end DonationLedger
