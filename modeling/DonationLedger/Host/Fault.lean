import DonationLedger.Contract.Response

namespace DonationLedger.Host

structure Shortage where
  address : String
  denom : String
  held : Int
  needed : Int
  deriving DecidableEq, Repr

def Shortage.text (s : Shortage) : String :=
  s.address ++ " holds " ++ toString s.held ++ s.denom ++ ", needs " ++ toString s.needed ++ s.denom

inductive Rejection where
  | fault (f : Fault)
  | executionFailed (contract : String) (entry : Family) (failure : Failure)
  | unknownCode (id : Int)
  | unknownContract (contract : String)
  | insufficientFunds (s : Shortage)
  | adminRequired (sender contract : String)
  | unsupportedEffect (name : String)
  /-- Marks that the steps given to a cascade were used up; no host raises it. -/
  | unfinished

namespace Rejection

def kind : Rejection → String
  | fault f => f.kind
  | executionFailed _ _ _ => "execution_failed"
  | unknownCode _ => "unknown_code"
  | unknownContract _ => "unknown_contract"
  | insufficientFunds _ => "insufficient_funds"
  | adminRequired _ _ => "admin_required"
  | unsupportedEffect _ => "host_error"
  | unfinished => "unfinished"

def message : Rejection → String
  | fault f => f.text
  | executionFailed contract entry failure =>
      entry.name ++ " on " ++ contract ++ " failed: " ++ failure.kind ++ ": " ++ failure.message
  | unknownCode id => "No code stored under id " ++ toString id
  | unknownContract contract => "No contract at " ++ contract
  | insufficientFunds s => s.text
  | adminRequired sender contract => sender ++ " is not the admin of " ++ contract
  | unsupportedEffect name => "Unsupported effect: " ++ name
  | unfinished => "the call does not end"

end Rejection

end DonationLedger.Host
