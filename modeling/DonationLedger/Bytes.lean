namespace DonationLedger

abbrev Bytes := List UInt8

namespace Bytes

def ofText (s : String) : Bytes := s.toUTF8.data.toList

def toText? (b : Bytes) : Option String := String.fromUTF8? ⟨b.toArray⟩

theorem toText?_ofText (s : String) : toText? (ofText s) = some s := by
  simp [toText?, ofText, String.fromUTF8?, String.fromUTF8, s.isValidUTF8]

theorem ofText_injective {s t : String} (h : ofText s = ofText t) : s = t := by
  have := congrArg toText? h
  simpa [toText?_ofText] using this

def secondByte (lead : UInt8) : UInt8 × UInt8 :=
  if lead = 0xE0 then (0xA0, 0xBF)
  else if lead = 0xED then (0x80, 0x9F)
  else if lead = 0xF0 then (0x90, 0xBF)
  else if lead = 0xF4 then (0x80, 0x8F)
  else (0x80, 0xBF)

def isSecond (lead b : UInt8) : Bool := (secondByte lead).1 ≤ b && b ≤ (secondByte lead).2

def isTail (b : UInt8) : Bool := 0x80 ≤ b && b ≤ 0xBF

def width (lead : UInt8) : Nat :=
  if lead < 0x80 then 1
  else if lead < 0xC2 then 0
  else if lead < 0xE0 then 2
  else if lead < 0xF0 then 3
  else if lead < 0xF5 then 4
  else 0

def unreadable : Char := Char.ofNat 0xFFFD

def charOf (lead : Nat) (tails : List UInt8) : Char :=
  Char.ofNat (tails.foldl (fun n b => n * 64 + b.toNat % 64) lead)

def leadChar (a : UInt8) (r : Bytes) : Char × Nat :=
  match width a, r with
  | 1, _ => (Char.ofNat a.toNat, 0)
  | 2, b :: _ => if isSecond a b then (charOf (a.toNat % 32) [b], 1) else (unreadable, 0)
  | 3, b :: r =>
      if isSecond a b then
        match r with
        | c :: _ => if isTail c then (charOf (a.toNat % 16) [b, c], 2) else (unreadable, 1)
        | [] => (unreadable, 1)
      else (unreadable, 0)
  | 4, b :: r =>
      if isSecond a b then
        match r with
        | c :: d :: _ =>
            if isTail c then
              if isTail d then (charOf (a.toNat % 8) [b, c, d], 3) else (unreadable, 2)
            else (unreadable, 1)
        | [c] => (unreadable, if isTail c then 2 else 1)
        | [] => (unreadable, 1)
      else (unreadable, 0)
  | _, _ => (unreadable, 0)

def toCharsLossy : Bytes → List Char
  | [] => []
  | a :: r => (leadChar a r).1 :: toCharsLossy (r.drop (leadChar a r).2)
termination_by b => b.length
decreasing_by simp only [List.length_drop, List.length_cons]; omega

def toTextLossy (b : Bytes) : String := String.ofList (toCharsLossy b)

end Bytes

end DonationLedger
