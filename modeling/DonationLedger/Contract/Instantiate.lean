import DonationLedger.Contract.Address
import DonationLedger.Contract.Response

namespace DonationLedger

open Number (Decimal)

def Parent.forwarding (p : Parent) : Except Fault Forwarding :=
  if p.period < 1 then .error (.refusal (.invalidConfig "donating_period" "must be at least 1"))
  else if !p.part.inUnit then
    .error (.refusal (.invalidConfig "part" (p.part.text ++ " is outside [0, 1]")))
  else do
    let address ← Address.destination p.address
    .ok { address, period := p.period, part := p.part }

def configureParent : Option Parent → Action (Option Int)
  | none => pure none
  | some p => do
      let f ← Action.ofExcept p.forwarding
      Forwarding.slot.save f
      pure (some f.period)

def instantiate (caller : Caller) (m : InstantiateMessage) : Action Response := do
  let countdown ← configureParent m.parent
  VersionTag.slot.save VersionTag.current
  State.slot.save
    { counter := m.counter, minimalDonation := m.minimalDonation, owner := caller.sender,
      countdown }
  pure (Response.empty
    |>.note "action" "instantiate"
    |>.note "sender" caller.sender
    |>.note "counter" (toString m.counter))

end DonationLedger
