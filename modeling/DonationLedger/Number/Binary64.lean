import DonationLedger.Number.Rounding

namespace DonationLedger.Number

inductive Binary64 where
  | finite (negative : Bool) (mantissa : Nat) (exponent : Int)
  | infinite (negative : Bool)
  | nan
  deriving DecidableEq, Repr

namespace Binary64

def leastExponent : Int := -1074
def greatestExponent : Int := 971
def mantissaLimit : Nat := Nat.pow 2 53

def powerBelow (n d : Nat) : Int :=
  let k : Int := (Nat.log2 n : Int) - Nat.log2 d
  if d * Nat.pow 2 k.toNat ≤ n * Nat.pow 2 (-k).toNat then k else k - 1

def ofRatio (negative : Bool) (n d : Nat) : Binary64 :=
  let q := max (powerBelow n d - 52) leastExponent
  let m := roundDiv (n * Nat.pow 2 (-q).toNat) (d * Nat.pow 2 q.toNat)
  let (m, q) := if m == mantissaLimit then (m / 2, q + 1) else (m, q)
  if greatestExponent < q then infinite negative else finite negative m q

def ofDecimal (negative : Bool) (digits : Nat) (exponent : Int) : Binary64 :=
  let size := exponent + digitCount digits
  if digits == 0 || size < -330 then finite negative 0 leastExponent
  else if 310 < size then infinite negative
  else ofRatio negative (digits * Nat.pow 10 exponent.toNat) (Nat.pow 10 (-exponent).toNat)

def ofScaled (negativeZero : Bool) (n exponent : Int) : Binary64 :=
  if n == 0 then finite negativeZero 0 leastExponent
  else ofRatio (n < 0) (n.natAbs * Nat.pow 2 exponent.toNat) (Nat.pow 2 (-exponent).toNat)

def ofInt? (n : Int) : Option Binary64 :=
  match ofScaled false n 0 with
  | infinite _ => none
  | x => some x

def signedInt (negative : Bool) (n : Nat) : Int := if negative then -(n : Int) else n

def add : Binary64 → Binary64 → Binary64
  | finite a m p, finite b n q =>
      let e := min p q
      let sum := signedInt a m * Nat.pow 2 (p - e).toNat + signedInt b n * Nat.pow 2 (q - e).toNat
      ofScaled (a && b) sum e
  | infinite a, infinite b => if a == b then infinite a else nan
  | infinite a, finite _ _ _ => infinite a
  | finite _ _ _, infinite b => infinite b
  | _, _ => nan

def toInt? : Binary64 → Option Int
  | finite negative m q =>
      let d := Nat.pow 2 (-q).toNat
      let n := m * Nat.pow 2 q.toNat / d
      if m % d == 0 && n < Nat.pow 2 63 then some (signedInt negative n) else none
  | _ => none

inductive Tie where
  | toEven
  | upward
  deriving DecidableEq, Repr

def onGrid? (tie : Tie) (m : Nat) (q p : Int) : Option Nat :=
  let unit := Nat.pow 2 (q - 2).toNat * Nat.pow 10 (-p).toNat
  let grid := Nat.pow 2 (2 - q).toNat * Nat.pow 10 p.toNat
  let below := if m == mantissaLimit / 2 && leastExponent < q then 1 else 2
  let value := 4 * m * unit
  let low := (4 * m - below) * unit
  let high := (4 * m + 2) * unit
  let reads (a : Nat) : Bool :=
    if m % 2 == 0 then low ≤ a * grid && a * grid ≤ high else low < a * grid && a * grid < high
  let floor := value / grid
  let nearest :=
    if 2 * (value - floor * grid) < grid
        || (2 * (value - floor * grid) == grid && tie = .toEven && floor % 2 == 0)
    then [floor, floor + 1] else [floor + 1, floor]
  nearest.find? reads

def shortest (tie : Tie) (m : Nat) (q : Int) : Nat × Int :=
  let n := m * Nat.pow 2 q.toNat
  let d := Nat.pow 2 (-q).toNat
  let top : Int := (digitCount n : Int) - digitCount d + 1
  let grids := (List.range 24).map (fun (i : Nat) => top - i)
  (grids.findSome? (fun p => (onGrid? tie m q p).map (·, p))).getD (n, 0)

def positional (ds : List Char) (point : Int) (fraction : List Char) : List Char :=
  if point ≤ 0 then '0' :: '.' :: List.replicate (-point).toNat '0' ++ ds
  else if ds.length ≤ point.toNat then
    ds ++ List.replicate (point.toNat - ds.length) '0' ++ fraction
  else ds.take point.toNat ++ '.' :: ds.drop point.toNat

def scientific (ds : List Char) (power : List Char) : List Char :=
  ds.take 1 ++ (if ds.length ≤ 1 then [] else '.' :: ds.drop 1) ++ 'e' :: power

def widePower (power : Int) : List Char :=
  let ds := Nat.toDigits 10 power.natAbs
  (if power < 0 then '-' else '+') :: (List.replicate (2 - ds.length) '0' ++ ds)

def shortPower (power : Int) : List Char :=
  let ds := Nat.toDigits 10 power.natAbs
  if power < 0 then '-' :: ds else ds

def signed (negative : Bool) (cs : List Char) : List Char := if negative then '-' :: cs else cs

/-- The shortest text: positional from 1e-4 up to 1e16, always with a fraction or an exponent. -/
def text : Binary64 → List Char
  | finite negative m q =>
      if m == 0 then signed negative ['0', '.', '0']
      else
        let (a, p) := shortest .toEven m q
        let ds := Nat.toDigits 10 a
        let point := p + ds.length
        signed negative
          (if -4 < point && point ≤ 16 then positional ds point ['.', '0']
            else scientific ds (widePower (point - 1)))
  | infinite negative => signed negative "inf".toList
  | nan => "nan".toList

/-- The shortest text for data: positional from 1e-5 up to 1e16, always with a fraction or an
exponent, and null where there is no finite value. -/
def compactText : Binary64 → List Char
  | finite negative m q =>
      if m == 0 then signed negative ['0', '.', '0']
      else
        let (a, p) := shortest .toEven m q
        let ds := Nat.toDigits 10 a
        let point := p + ds.length
        signed negative
          (if -5 < point && point ≤ 16 then positional ds point ['.', '0']
            else scientific ds (shortPower (point - 1)))
  | _ => "null".toList

/-- The shortest digits, always positional, with a fraction only where there is one. -/
def plainText : Binary64 → List Char
  | finite negative m q =>
      if m == 0 then signed negative ['0']
      else
        let (a, p) := shortest .upward m q
        let ds := Nat.toDigits 10 a
        signed negative (positional ds (p + ds.length) [])
  | infinite negative => signed negative "inf".toList
  | nan => "NaN".toList

end Binary64

end DonationLedger.Number
