import DonationLedger.Coin.Basic
import DonationLedger.Fault

namespace DonationLedger.Coin

open Number (Decimal Numeral roundDigits digitCount)

def shareDigits : Nat := 96

def sharePower : Int := 999999

def wholePart (digits : Nat) (exponent : Int) : Nat :=
  if 0 ≤ exponent then digits * Nat.pow 10 exponent.toNat
  else if digitCount digits ≤ exponent.natAbs then 0
  else digits / Nat.pow 10 exponent.natAbs

def shareOf (amount : Int) (part : Decimal) : Except ShareFault Int :=
  let (digits, surplus) := roundDigits shareDigits (amount.toNat * part.coefficient)
  let exponent := part.exponent + surplus
  if digits == 0 then .ok 0
  else if sharePower < exponent + digitCount digits - 1 then .error .beyondRange
  else if part.negative then .ok 0
  else .ok (wholePart digits exponent)

def numeralShare (amount : Int) : Numeral → Except ShareFault Int
  | .finite d => shareOf amount d
  | .infinite => if amount == 0 then .error .undefined else .error .infinite
  | .nan signaling => .error (if signaling then .undefined else .notNumber)

def split (part : Numeral) : List Coin → Except Fault (List Coin)
  | [] => .ok []
  | c :: coins =>
      match numeralShare c.amount part with
      | .error f => .error (.share f)
      | .ok share =>
          if share ≤ 0 then split part coins
          else if greatest < share then .error .misshapen
          else (split part coins).map ({ denom := c.denom, amount := share } :: ·)

end DonationLedger.Coin
