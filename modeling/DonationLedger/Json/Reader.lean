import DonationLedger.Json.Basic
import DonationLedger.Bytes
import DonationLedger.Number.Whole

namespace DonationLedger.Json

open Number (Binary64)

structure Limits where
  length : Nat
  depth : Nat

def Limits.stored : Limits := ⟨Number.Whole.greatestLength, 200⟩

def Limits.ofSize (size : Nat) : Limits := ⟨size, size⟩

def isBlank (c : Char) : Bool := c == ' ' || c == '\n' || c == '\t' || c == '\r'

def skip (cs : List Char) : List Char := cs.dropWhile isBlank

def word? : List Char → List Char → Option (List Char)
  | [], cs => some cs
  | w :: ws, c :: cs => if w == c then word? ws cs else none
  | _ :: _, [] => none

def hexValue? (c : Char) : Option Nat :=
  if '0' ≤ c && c ≤ '9' then some (c.toNat - 48)
  else if 'a' ≤ c && c ≤ 'f' then some (c.toNat - 87)
  else if 'A' ≤ c && c ≤ 'F' then some (c.toNat - 55)
  else none

def hex4? : List Char → Option (Nat × List Char)
  | a :: b :: c :: d :: rest => do
      let n ← [a, b, c, d].foldlM (fun n h => (hexValue? h).map (n * 16 + ·)) 0
      some (n, rest)
  | _ => none

def isHigh (n : Nat) : Bool := 0xD800 ≤ n && n ≤ 0xDBFF
def isLow (n : Nat) : Bool := 0xDC00 ≤ n && n ≤ 0xDFFF

def unicode? (cs : List Char) : Option (Char × List Char) := do
  let (n, rest) ← hex4? cs
  if isHigh n then
    match rest with
    | '\\' :: 'u' :: rest => do
        let (m, rest) ← hex4? rest
        if isLow m then
          some (Char.ofNat (0x10000 + (n - 0xD800) * 0x400 + (m - 0xDC00)), rest)
        else none
    | _ => none
  else if isLow n then none
  else some (Char.ofNat n, rest)

def escape? : List Char → Option (Char × List Char)
  | 'u' :: rest => unicode? rest
  | c :: rest =>
      match c with
      | '"' => some ('"', rest)
      | '\\' => some ('\\', rest)
      | '/' => some ('/', rest)
      | 'b' => some (Char.ofNat 8, rest)
      | 'f' => some (Char.ofNat 12, rest)
      | 'n' => some ('\n', rest)
      | 'r' => some ('\r', rest)
      | 't' => some ('\t', rest)
      | _ => none
  | [] => none

def textChars? : Nat → List Char → Option (List Char × List Char)
  | 0, _ => none
  | fuel + 1, cs =>
      match cs with
      | [] => none
      | '"' :: rest => some ([], rest)
      | '\\' :: rest => do
          let (c, rest) ← escape? rest
          let (s, rest) ← textChars? fuel rest
          some (c :: s, rest)
      | c :: rest =>
          if c.toNat < 0x20 then none
          else do
            let (s, rest) ← textChars? fuel rest
            some (c :: s, rest)

def text? (cs : List Char) : Option (String × List Char) := do
  let (s, rest) ← textChars? (cs.length + 1) cs
  some (String.ofList s, rest)

def digits (cs : List Char) : List Char × List Char :=
  (cs.takeWhile Char.isDigit, cs.dropWhile Char.isDigit)

def whole? (cs : List Char) : Option (List Char × List Char) :=
  match digits cs with
  | ([], _) => none
  | ('0' :: _ :: _, _) => none
  | (ds, rest) => some (ds, rest)

def fraction? : List Char → Option (Option (List Char) × List Char)
  | '.' :: cs =>
      match digits cs with
      | ([], _) => none
      | (ds, rest) => some (some ds, rest)
  | cs => some (none, cs)

def sign : List Char → Bool × List Char
  | '-' :: cs => (true, cs)
  | '+' :: cs => (false, cs)
  | cs => (false, cs)

def exponent? : List Char → Option (Option Int × List Char)
  | c :: cs =>
      if c == 'e' || c == 'E' then
        let (negative, cs) := sign cs
        match digits cs with
        | ([], _) => none
        | (ds, rest) =>
            let n : Int := Nat.ofDigitChars 10 ds 0
            some (some (if negative then -n else n), rest)
      else some (none, c :: cs)
  | [] => some (none, [])

def unsigned? (length : Nat) (negative : Bool) (cs : List Char) : Option (Json × List Char) := do
  let (ds, cs) ← whole? cs
  if length < ds.length then none
  else do
    let (part, cs) ← fraction? cs
    let (power, cs) ← exponent? cs
    if part.isNone && power.isNone then
      let n : Int := Nat.ofDigitChars 10 ds 0
      some (int (if negative then -n else n), cs)
    else
      let part := part.getD []
      let n := Nat.ofDigitChars 10 (ds ++ part) 0
      some (real (Binary64.ofDecimal negative n (power.getD 0 - part.length)), cs)

def number? (length : Nat) : List Char → Option (Json × List Char)
  | '-' :: cs =>
      match word? "Infinity".toList cs with
      | some rest => some (real (.infinite true), rest)
      | none => unsigned? (length - 1) true cs
  | cs => unsigned? length false cs

def items? {α : Type} (item : List Char → Option (α × List Char)) (close : Char) :
    Nat → List Char → Option (List α × List Char)
  | 0, _ => none
  | fuel + 1, cs => do
      let (a, rest) ← item cs
      match skip rest with
      | [] => none
      | c :: rest =>
          if c == ',' then do
            let (as, rest) ← items? item close fuel rest
            some (a :: as, rest)
          else if c == close then some ([a], rest)
          else none

def closing? (close : Char) (cs : List Char) : Option (List Char) :=
  match skip cs with
  | [] => none
  | c :: rest => if c == close then some rest else none

def member (value : List Char → Option (Json × List Char)) (cs : List Char) :
    Option ((String × Json) × List Char) :=
  match skip cs with
  | '"' :: rest => do
      let (name, rest) ← text? rest
      match skip rest with
      | ':' :: rest => do
          let (v, rest) ← value rest
          some ((name, v), rest)
      | _ => none
  | _ => none

def value? (length depth : Nat) (cs : List Char) : Option (Json × List Char) :=
  match skip cs with
  | '[' :: rest =>
      match closing? ']' rest with
      | some rest => some (arr [], rest)
      | none =>
          match depth with
          | 0 => none
          | depth + 1 => do
              let (vs, rest) ← items? (value? length depth) ']' (rest.length + 1) rest
              some (arr vs, rest)
  | '{' :: rest =>
      match closing? '}' rest with
      | some rest => some (obj [], rest)
      | none =>
          match depth with
          | 0 => none
          | depth + 1 => do
              let (ms, rest) ← items? (member (value? length depth)) '}' (rest.length + 1) rest
              some (obj ms, rest)
  | '"' :: rest => do
      let (s, rest) ← text? rest
      some (str s, rest)
  | 'n' :: rest => (word? "ull".toList rest).map (null, ·)
  | 't' :: rest => (word? "rue".toList rest).map (bool true, ·)
  | 'f' :: rest => (word? "alse".toList rest).map (bool false, ·)
  | 'N' :: rest => (word? "aN".toList rest).map (real .nan, ·)
  | 'I' :: rest => (word? "nfinity".toList rest).map (real (.infinite false), ·)
  | cs => number? length cs

def ofChars? (limits : Limits) (cs : List Char) : Option Json := do
  let (v, rest) ← value? limits.length limits.depth cs
  if (skip rest).isEmpty then some v else none

def ofBytes? (b : Bytes) : Option Json := do
  let s ← b.toText?
  ofChars? Limits.stored s.toList

def ofText? (s : String) : Option Json :=
  let cs := s.toList
  ofChars? (Limits.ofSize cs.length) cs

end DonationLedger.Json
