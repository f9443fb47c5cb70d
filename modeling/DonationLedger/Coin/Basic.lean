import DonationLedger.Shape

namespace DonationLedger

structure Coin where
  denom : String
  amount : Int
  deriving DecidableEq, Repr

namespace Coin

def greatest : Int := Nat.pow 2 128 - 1

def Valid (c : Coin) : Prop := 0 ≤ c.amount ∧ c.amount ≤ greatest

instance (c : Coin) : Decidable c.Valid := inferInstanceAs (Decidable (_ ∧ _))

def shape : Shape Coin where
  form := .record [("denom", .text, none), ("amount", .whole, none)]
  read _ v := do
    let ms ← v.members?
    let denom ← Json.field? Json.toText? ms "denom"
    let amount ← Json.field? (Json.toIntIn? 0 greatest) ms "amount"
    some { denom, amount }
  write c := .obj [("denom", .str c.denom), ("amount", .int c.amount)]

def listShape : Shape (List Coin) := Shape.list shape

/-- A minimum of zero is met by every payment, also by none; any other by one coin of its
denomination that is large enough. -/
def meetsThreshold (funds : List Coin) (minimum : Coin) : Bool :=
  minimum.amount == 0
    || funds.any (fun c => c.denom == minimum.denom && minimum.amount ≤ c.amount)

def total (denom : String) : List Coin → Int
  | [] => 0
  | c :: coins => (if c.denom = denom then c.amount else 0) + total denom coins

theorem total_nil (denom : String) : total denom [] = 0 := rfl

theorem total_cons (denom : String) (c : Coin) (coins : List Coin) :
    total denom (c :: coins) = (if c.denom = denom then c.amount else 0) + total denom coins := rfl

theorem total_append (denom : String) (as bs : List Coin) :
    total denom (as ++ bs) = total denom as + total denom bs := by
  induction as with
  | nil => simp [total_nil]
  | cons a as ih =>
      rw [List.cons_append, total_cons, total_cons, ih]
      omega

end Coin

end DonationLedger
