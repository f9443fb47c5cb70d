import DonationLedger.Fault
import DonationLedger.Text.Digit

namespace DonationLedger.Version

def splitAt (mark : Char) : List Char → List (List Char)
  | [] => [[]]
  | c :: cs =>
      if c == mark then [] :: splitAt mark cs
      else
        match splitAt mark cs with
        | [] => [[c]]
        | piece :: pieces => (c :: piece) :: pieces

def greatestLength : Nat := 4300

def component (piece : List Char) : Except Fault Nat :=
  if piece.isEmpty || !piece.all Text.isDigit then .ok 0
  else if greatestLength < piece.length then
    .error (.badValue "a number of too many digits")
  else
    match Text.decimalValue? piece with
    | some n => .ok n
    | none => .error (.badValue ("not a number: " ++ Text.quoted (String.ofList piece)))

def pieces (label : String) : List (List Char) :=
  splitAt '.' (label.toList.takeWhile (· != '-'))

def key (label : String) : Except Fault (List Nat) := (pieces label).mapM component

def atMost : List Nat → List Nat → Bool
  | [], _ => true
  | _ :: _, [] => false
  | a :: as, b :: bs => a < b || (a == b && atMost as bs)

def sort (labels : List String) : Except Fault (List String) := do
  let keyed ← labels.mapM (fun label => (key label).map (label, ·))
  .ok ((keyed.mergeSort (fun a b => atMost a.2 b.2)).map Prod.fst)

end DonationLedger.Version
