import DonationLedger.Contract.Response

namespace DonationLedger

inductive Step where
  | note (key value : String)
  | ask (e : Effect)
  | set (key value : Bytes)
  | remove (key : Bytes)
  | emit (line : String)
  | fail (f : Fault)

def Step.perform (response : Response) : Step → Action Response
  | note key value => pure (response.note key value)
  | ask e => pure (response.ask e)
  | set key value => do
      Action.write key value
      pure response
  | remove key => do
      Action.erase key
      pure response
  | emit line => do
      Action.emit line
      pure response
  | fail f => Action.fail f

abbrev Script := List Step

def Script.perform (script : Script) : Action Response := script.foldlM Step.perform Response.empty

end DonationLedger
