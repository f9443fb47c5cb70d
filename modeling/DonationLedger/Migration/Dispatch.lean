import DonationLedger.Contract.State
import DonationLedger.Migration.Registry

namespace DonationLedger.Migration

inductive Status where
  | pending
  | inProgress
  | complete
  | rejected
  deriving DecidableEq, Repr

def Status.name : Status → String
  | pending => "pending"
  | inProgress => "in_progress"
  | complete => "complete"
  | rejected => "rejected"

structure Progress where
  status : Status
  applied : List String
  refusal : Option Refusal

namespace Progress

def start : Progress := ⟨.pending, [], none⟩

def stopped (p : Progress) : Fault → Progress
  | .refusal r => { p with status := .rejected, refusal := some r }
  | _ => p

end Progress

def plan (registry : Registry) (tag : VersionTag) : Action (List Upgrade) := do
  let stored ← VersionTag.slot.load
  if stored.contract ≠ tag.contract then
    Action.refuse (.identityMismatch stored.contract tag.contract)
  else if stored.version = tag.version then pure []
  else Action.ofExcept (registry.chainFrom stored.version tag.version)

def line (u : Upgrade) : String := "[migrate] " ++ u.source ++ " -> " ++ u.target

def applyAll (m : MigrateMessage) :
    List Upgrade → Response → Progress → Program (Except Fault Response × Progress)
  | [], response, progress => .done (.ok response, progress)
  | u :: us, response, progress =>
      .emit (line u) do
        match ← (u.handler m).program with
        | .error f => .done (.error f, progress.stopped f)
        | .ok r =>
            applyAll m us (response.append r)
              { progress with applied := progress.applied ++ [u.source] }

def finish (tag : VersionTag) (response : Response) (progress : Progress) :
    Program (Except Fault Response × Progress) := do
  match ← (VersionTag.slot.save tag).program with
  | .error f => .done (.error f, progress)
  | .ok () =>
      .done (.ok (response.note "action" "migrate" |>.note "version" tag.version),
        { progress with status := .complete })

def migrate (registry : Registry) (tag : VersionTag) (m : MigrateMessage) :
    Program (Except Fault Response × Progress) := do
  match ← (plan registry tag).program with
  | .error f => .done (.error f, Progress.start.stopped f)
  | .ok [] => .done (.ok Response.empty, { Progress.start with status := .complete })
  | .ok chain =>
      match ← applyAll m chain Response.empty { Progress.start with status := .inProgress } with
      | (.ok response, progress) => finish tag response progress
      | (.error f, progress) => .done (.error f, progress)

end DonationLedger.Migration
