import DonationLedger.Fault

namespace DonationLedger.Address

def greatestLength : Nat := 64

def isHead (c : Char) : Bool := ('a' ≤ c && c ≤ 'z') || ('0' ≤ c && c ≤ '9')

def isPart (c : Char) : Bool := isHead c || c == '.' || c == '_' || c == '-'

def isTail : List Char → Bool
  | [] => true
  | c :: rest => (c == '\n' && rest.isEmpty) || (isPart c && isTail rest)

def isAddress : List Char → Bool
  | [] => false
  | c :: rest => isHead c && isTail rest

def validate (address : String) : Except AddressFault String :=
  let cs := address.toList
  if cs.isEmpty then .error .empty
  else if greatestLength < cs.length then .error .tooLong
  else if isAddress cs then .ok address
  else .error .malformed

theorem validate_eq_ok {address a : String} (h : validate address = .ok a) : a = address := by
  unfold validate at h
  dsimp only at h
  split at h
  · cases h
  · split at h
    · cases h
    · split at h
      · injection h with h
        exact h.symm
      · cases h

def destination (address : String) : Except Fault String :=
  match validate address with
  | .ok a => .ok a
  | .error f => .error (.refusal (.invalidDestination address f.text))

end DonationLedger.Address
