import DonationLedger.Number.Decimal
import DonationLedger.Text.Blank
import DonationLedger.Text.Digit

namespace DonationLedger.Number

inductive Numeral where
  | finite (d : Decimal)
  | infinite
  | nan (signaling : Bool)

namespace Numeral

def ascii? (c : Char) : Option Char :=
  if c.toNat == 0 then none
  else if c.toNat < 0x80 then some c
  else if Text.isSpace c then some ' '
  else (Text.decimalDigit? c).map (fun v => Char.ofNat (48 + v))

def core? (cs : List Char) : Option (List Char) :=
  ((Text.trim Text.isSpace cs).filter (· != '_')).mapM ascii?

def sign : List Char → Bool × List Char
  | '-' :: cs => (true, cs)
  | '+' :: cs => (false, cs)
  | cs => (false, cs)

def digits (cs : List Char) : List Char × List Char :=
  (cs.takeWhile Char.isDigit, cs.dropWhile Char.isDigit)

def exponent? : List Char → Option Int
  | [] => some 0
  | c :: cs =>
      if c == 'e' || c == 'E' then
        let (negative, cs) := sign cs
        if cs.isEmpty || !cs.all Char.isDigit then none
        else some (if negative then -(Nat.ofDigitChars 10 cs 0 : Int) else Nat.ofDigitChars 10 cs 0)
      else none

def fraction : List Char → List Char × List Char
  | '.' :: cs => digits cs
  | cs => ([], cs)

def finite? (negative : Bool) (cs : List Char) : Option Numeral := do
  let (whole, cs) := digits cs
  let (part, cs) := fraction cs
  if whole.isEmpty && part.isEmpty then none
  else
    let e ← exponent? cs
    let d ← Decimal.make? negative (Nat.ofDigitChars 10 (whole ++ part) 0) (e - part.length)
    some (finite d)

def ofChars? (cs : List Char) : Option Numeral := do
  let cs ← core? cs
  let (negative, cs) := sign cs
  let lower := String.ofList (cs.map Char.toLower)
  if lower == "inf" || lower == "infinity" then some infinite
  else if lower.startsWith "nan" then
    if (cs.drop 3).all Char.isDigit then some (nan false) else none
  else if lower.startsWith "snan" then
    if (cs.drop 4).all Char.isDigit then some (nan true) else none
  else finite? negative cs

def toDecimal? : Numeral → Option Decimal
  | finite d => some d
  | _ => none

end Numeral

def Decimal.ofChars? (cs : List Char) : Option Decimal :=
  (Numeral.ofChars? cs).bind Numeral.toDecimal?

end DonationLedger.Number
