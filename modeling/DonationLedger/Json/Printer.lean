import DonationLedger.Json.Basic
import DonationLedger.Bytes
import DonationLedger.Text.Quoted

namespace DonationLedger.Json

def escape (c : Char) : List Char :=
  if c == '"' then ['\\', '"']
  else if c == '\\' then ['\\', '\\']
  else if c.toNat < 0x20 then
    match c.toNat with
    | 8 => ['\\', 'b']
    | 9 => ['\\', 't']
    | 10 => ['\\', 'n']
    | 12 => ['\\', 'f']
    | 13 => ['\\', 'r']
    | n => '\\' :: 'u' :: Text.hex 4 n
  else [c]

def textOf (s : String) : List Char := '"' :: s.toList.flatMap escape ++ ['"']

def intText (n : Int) : List Char :=
  if n < 0 then '-' :: Nat.toDigits 10 n.natAbs else Nat.toDigits 10 n.natAbs

mutual

def chars : Json → List Char
  | null => "null".toList
  | bool true => "true".toList
  | bool false => "false".toList
  | int n => intText n
  | real x => x.compactText
  | str s => textOf s
  | arr [] => ['[', ']']
  | arr (v :: vs) => '[' :: (v.chars ++ itemChars vs)
  | obj [] => ['\x7b', '\x7d']
  | obj ((name, v) :: ms) => '\x7b' :: (textOf name ++ ':' :: (v.chars ++ memberChars ms))

def itemChars : List Json → List Char
  | [] => [']']
  | v :: vs => ',' :: (v.chars ++ itemChars vs)

def memberChars : List (String × Json) → List Char
  | [] => ['\x7d']
  | (name, v) :: ms => ',' :: (textOf name ++ ':' :: (v.chars ++ memberChars ms))

end

def text (v : Json) : String := String.ofList v.chars

def toBytes (v : Json) : Bytes := Bytes.ofText v.text

end DonationLedger.Json
