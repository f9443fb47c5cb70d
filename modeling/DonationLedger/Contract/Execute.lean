import DonationLedger.Contract.Instantiate
import DonationLedger.Contract.Owner
import DonationLedger.Coin.Share

namespace DonationLedger

def Action.requireOwner (caller owner : String) : Action Unit :=
  Action.ofExcept (Owner.require caller owner)

def forward (f : Forwarding) : Action Response := do
  let balance ← Action.holdings
  let funds ← Action.ofExcept (Coin.split (.finite f.part) balance)
  pure (Response.empty
    |>.ask (.wasmExecute f.address Command.donate.toJson funds)
    |>.note "donated_to_parent" f.address)

def countDown : Option Int → Action (Option Int × Response)
  | none => pure (none, Response.empty)
  | some n =>
      if n - 1 == 0 then do
        let f ← Forwarding.slot.load
        let response ← forward f
        pure (some f.period, response)
      else pure (some (n - 1), Response.empty)

def countDonation (s : State) : Action (Int × Response) :=
  if counterLimit ≤ s.counter then Action.refuse (.overflow "counter" s.counter counterLimit)
  else do
    let (countdown, response) ← countDown s.countdown
    State.slot.save { s with counter := s.counter + 1, countdown }
    pure (s.counter + 1, response)

def donate (caller : Caller) : Action Response := do
  let s ← State.slot.load
  let (counter, response) ←
    if Coin.meetsThreshold caller.funds s.minimalDonation then countDonation s
    else pure (s.counter, Response.empty)
  pure (response
    |>.note "action" "donate"
    |>.note "sender" caller.sender
    |>.note "counter" (toString counter))

def reset (caller : Caller) (counter : Int) : Action Response := do
  let _ ← State.slot.update (fun s => do
    Owner.require caller.sender s.owner
    .ok { s with counter })
  pure (Response.empty
    |>.note "action" "reset"
    |>.note "sender" caller.sender
    |>.note "counter" (toString counter))

def withdraw (caller : Caller) : Action Response := do
  let s ← State.slot.load
  Action.requireOwner caller.sender s.owner
  let balance ← Action.holdings
  pure (Response.empty
    |>.ask (.bankSend s.owner balance)
    |>.note "action" "withdraw"
    |>.note "sender" caller.sender)

def withdrawal : Option (List Coin) → Action (List Coin)
  | some (c :: coins) => pure (c :: coins)
  | _ => Action.holdings

def withdrawTo (caller : Caller) (receiver : String) (funds : Option (List Coin)) :
    Action Response := do
  let s ← State.slot.load
  Action.requireOwner caller.sender s.owner
  let destination ← Action.ofExcept (Address.destination receiver)
  let amount ← withdrawal funds
  pure (Response.empty
    |>.ask (.bankSend destination amount)
    |>.note "action" "withdraw_to"
    |>.note "sender" caller.sender
    |>.note "receiver" destination)

def Command.perform (caller : Caller) : Command → Action Response
  | donate => DonationLedger.donate caller
  | reset counter => DonationLedger.reset caller counter
  | withdraw => DonationLedger.withdraw caller
  | withdrawTo receiver funds => DonationLedger.withdrawTo caller receiver funds

def Query.answer : Query → Action (List (String × Json))
  | value => do
      let s ← State.slot.load
      pure [("value", .int s.counter)]

end DonationLedger
