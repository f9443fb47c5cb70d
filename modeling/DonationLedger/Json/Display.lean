import DonationLedger.Json.Basic
import DonationLedger.Text.Quoted

namespace DonationLedger.Json

def memberName (name : String) : List Char := (Text.quoted name).toList ++ [':', ' ']

mutual

def literal : Json → List Char
  | null => "None".toList
  | bool true => "True".toList
  | bool false => "False".toList
  | int n => (toString n).toList
  | real x => x.text
  | str s => (Text.quoted s).toList
  | arr [] => ['[', ']']
  | arr (v :: vs) => '[' :: (v.literal ++ laterItems vs ++ [']'])
  | obj [] => ['\x7b', '\x7d']
  | obj ((name, v) :: ms) =>
      '\x7b' :: (memberName name ++ v.literal ++ laterMembers ms ++ ['\x7d'])

def laterItems : List Json → List Char
  | [] => []
  | v :: vs => [',', ' '] ++ v.literal ++ laterItems vs

def laterMembers : List (String × Json) → List Char
  | [] => []
  | (name, v) :: ms =>
      [',', ' '] ++ memberName name ++ v.literal ++ laterMembers ms

end

def display : Json → String
  | str s => s
  | v => String.ofList v.literal

def displayAll : List Json → String
  | [] => ""
  | [v] => v.display
  | v :: vs => String.ofList ('(' :: (v.literal ++ laterItems vs ++ [')']))

end DonationLedger.Json
