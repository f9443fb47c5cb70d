import DonationLedger.Fault

namespace DonationLedger.Owner

def isOwner (caller owner : String) : Bool := caller == owner

def require (caller owner : String) : Except Fault Unit :=
  if isOwner caller owner then .ok () else .error (.refusal (.unauthorized owner))

theorem require_eq_ok_iff (caller owner : String) :
    require caller owner = .ok () ↔ caller = owner := by
  simp [require, isOwner]

end DonationLedger.Owner
