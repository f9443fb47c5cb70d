import DonationLedger.Fault

namespace DonationLedger.Json

open Number (Binary64)

def plusWhole (x : Binary64) (n : Int) : Except Fault Json :=
  match Binary64.ofInt? n with
  | some y => .ok (.real (x.add y))
  | none => .error .tooGreat

/-- The sum of two numbers, with a truth value as 0 or 1; of two texts or two lists, the one after
the other. -/
def plus (v w : Json) : Except Fault Json :=
  match v.counted, w.counted with
  | .int m, .int n => .ok (.int (m + n))
  | .real x, .int n => plusWhole x n
  | .int m, .real y => plusWhole y m
  | .real x, .real y => .ok (.real (x.add y))
  | .str s, .str t => .ok (.str (s ++ t))
  | .arr vs, .arr ws => .ok (.arr (vs ++ ws))
  | _, _ => .error .wrongKind

end DonationLedger.Json
