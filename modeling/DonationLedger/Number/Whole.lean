import DonationLedger.Text.Blank

namespace DonationLedger.Number.Whole

def greatestLength : Nat := 4300

def natural? : List Char → Option Nat
  | [] => none
  | ['0'] => some 0
  | '0' :: _ => none
  | ds => if ds.all Char.isDigit then some (Nat.ofDigitChars 10 ds 0) else none

def literal? (cs : List Char) : Option Int :=
  if greatestLength < cs.length then none
  else
    match cs with
    | '-' :: ds => (natural? ds).map (fun n => -(n : Int))
    | ds => (natural? ds).map (fun n => (n : Int))

/-- What follows zeros and underscores, of which `last` is the last one. It starts with a digit or
a minus sign; the last zero stays where nothing or a decimal point follows. -/
def afterZeros? (last : Char) : List Char → Option (List Char)
  | [] => some [last]
  | c :: cs =>
      if c == '0' || c == '_' then afterZeros? c cs
      else if c == '.' then some (last :: c :: cs)
      else if c.isDigit || c == '-' then some (c :: cs)
      else none

def dropZeros? : List Char → Option (List Char)
  | [] => none
  | '0' :: cs => afterZeros? '0' cs
  | c :: cs => if c.isDigit then some (c :: cs) else none

def isZeroFraction : List Char → Bool
  | [] => true
  | '.' :: zeros => !zeros.isEmpty && zeros.all (· == '0')
  | _ => false

def dropFraction? (cs : List Char) : Option (List Char) :=
  if isZeroFraction (cs.dropWhile (· != '.')) then some (cs.takeWhile (· != '.')) else none

def ungroup? : List Char → Option (List Char)
  | [] => some []
  | ['_'] => none
  | '_' :: '_' :: _ => none
  | c :: cs => (ungroup? cs).map (fun ds => if c == '_' then ds else c :: ds)

def plain? (cs : List Char) : Option (List Char) :=
  match cs with
  | '-' :: cs => (dropZeros? cs).map ('-' :: ·)
  | '+' :: cs => dropZeros? cs
  | cs => dropZeros? cs

def ofChars? (cs : List Char) : Option Int := do
  let cs ← plain? (Text.trim Text.isBlank cs)
  let cs ← dropFraction? cs
  let cs ← ungroup? cs
  literal? cs

end DonationLedger.Number.Whole
