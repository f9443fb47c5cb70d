import DonationLedger.Coin.Basic
import DonationLedger.Fault

namespace DonationLedger.Coin

def addTo : List Coin → Coin → List Coin
  | [], c => [c]
  | t :: ts, c =>
      if t.denom = c.denom then { denom := t.denom, amount := t.amount + c.amount } :: ts
      else t :: addTo ts c

def totals (coins : List Coin) : List Coin := coins.foldl addTo []

def merge (coins : List Coin) : Except Fault (List Coin) :=
  let merged := (totals coins).filter (fun c => 0 < c.amount)
  if merged.all (fun c => c.amount ≤ greatest) then .ok merged else .error .misshapen

theorem total_addTo (denom : String) (ts : List Coin) (c : Coin) :
    total denom (addTo ts c) = total denom ts + (if c.denom = denom then c.amount else 0) := by
  induction ts with
  | nil => simp [addTo, total_cons, total_nil]
  | cons t ts ih =>
      simp only [addTo]
      split
      · next h =>
          simp only [total_cons, h]
          split <;> omega
      · simp only [total_cons, ih]
        omega

theorem total_foldl_addTo (denom : String) (coins ts : List Coin) :
    total denom (coins.foldl addTo ts) = total denom ts + total denom coins := by
  induction coins generalizing ts with
  | nil => simp [total_nil]
  | cons c coins ih =>
      rw [List.foldl_cons, ih, total_addTo, total_cons]
      omega

theorem total_totals (denom : String) (coins : List Coin) :
    total denom (totals coins) = total denom coins := by
  simp [totals, total_foldl_addTo, total_nil]

end DonationLedger.Coin
