import DonationLedger.Number.Rounding

namespace DonationLedger.Number

namespace Decimal

def greatestPower : Int := 999999999999999999
def leastExponent : Int := -1999999999999999997

def Fits (coefficient : Nat) (exponent : Int) : Prop :=
  leastExponent ≤ exponent ∧ exponent + digitCount coefficient - 1 ≤ greatestPower

instance (coefficient : Nat) (exponent : Int) : Decidable (Fits coefficient exponent) :=
  inferInstanceAs (Decidable (_ ∧ _))

end Decimal

structure Decimal where
  negative : Bool
  coefficient : Nat
  exponent : Int
  fits : Decimal.Fits coefficient exponent := by decide
  deriving DecidableEq

namespace Decimal

def zero : Decimal := { negative := false, coefficient := 0, exponent := 0 }

instance : Inhabited Decimal := ⟨zero⟩

def make? (negative : Bool) (coefficient : Nat) (exponent : Int) : Option Decimal :=
  if h : Fits coefficient exponent then some ⟨negative, coefficient, exponent, h⟩ else none

theorem make?_self (d : Decimal) : make? d.negative d.coefficient d.exponent = some d := by
  simp [make?, d.fits]

def adjusted (d : Decimal) : Int := d.exponent + digitCount d.coefficient - 1

def inUnit (d : Decimal) : Bool :=
  d.coefficient == 0
    || (!d.negative && (d.adjusted < 0
      || (d.adjusted == 0 && d.coefficient ≤ Nat.pow 10 (digitCount d.coefficient - 1))))

def exponentText (power : Int) : List Char :=
  'E' :: (if power < 0 then '-' else '+') :: Nat.toDigits 10 power.natAbs

def pointed (ds : List Char) (point : Int) : List Char :=
  if point ≤ 0 then '0' :: '.' :: List.replicate (-point).toNat '0' ++ ds
  else if ds.length ≤ point.toNat then ds
  else ds.take point.toNat ++ '.' :: ds.drop point.toNat

def chars (d : Decimal) : List Char :=
  let ds := Nat.toDigits 10 d.coefficient
  let body :=
    if d.exponent ≤ 0 && -7 < d.adjusted then pointed ds (d.exponent + ds.length)
    else pointed ds 1 ++ exponentText d.adjusted
  if d.negative then '-' :: body else body

def text (d : Decimal) : String := String.ofList d.chars

end Decimal

end DonationLedger.Number
