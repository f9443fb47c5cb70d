import DonationLedger.Contract.Response
import DonationLedger.Migration.Version

namespace DonationLedger

structure Upgrade where
  source : String
  target : String
  handler : MigrateMessage → Action Response

structure Registry where
  upgrades : List Upgrade

namespace Registry

def empty : Registry := ⟨[]⟩

def from? (label : String) (upgrades : List Upgrade) : Option Upgrade :=
  upgrades.find? (·.source == label)

def without (label : String) (upgrades : List Upgrade) : List Upgrade :=
  upgrades.eraseP (·.source == label)

theorem length_without {label : String} {upgrades : List Upgrade} {u : Upgrade}
    (h : from? label upgrades = some u) : (without label upgrades).length < upgrades.length := by
  have hm := List.mem_of_find?_eq_some h
  have hp := List.find?_some h
  have := List.length_pos_of_mem hm
  rw [without, List.length_eraseP_of_mem hm hp]
  omega

def register (r : Registry) (u : Upgrade) : Except Fault Registry := do
  if r.upgrades.any (·.source == u.source) then
    throw (.registry (.duplicate u.source))
  let target ← Version.key u.target
  let source ← Version.key u.source
  if Version.atMost target source then
    throw (.registry (.backward u.source u.target))
  .ok ⟨r.upgrades ++ [u]⟩

def versions (r : Registry) : Except Fault (List String) :=
  Version.sort (r.upgrades.map (·.source))

/-- The upgrades that lead from one label to another. -/
def path? (upgrades : List Upgrade) (label target : String) : Option (List Upgrade) :=
  if label = target then some []
  else
    match _ : from? label upgrades with
    | none => none
    | some u => (path? (without label upgrades) u.target target).map (u :: ·)
termination_by upgrades.length
decreasing_by exact length_without ‹_›

def chainFrom (r : Registry) (label target : String) : Except Fault (List Upgrade) :=
  match from? label r.upgrades, path? r.upgrades label target with
  | some _, some chain => .ok chain
  | _, _ => .error (.refusal (.unsupportedVersion label))

def stop? (upgrades : List Upgrade) (label target : String) : Option String :=
  if label = target then none
  else
    match _ : from? label upgrades with
    | none => some label
    | some u => stop? (without label upgrades) u.target target
termination_by upgrades.length
decreasing_by exact length_without ‹_›

def validateFrom (r : Registry) (u : Upgrade) (target : String) : Except Fault Unit :=
  match stop? (without u.source r.upgrades) u.target target with
  | none => .ok ()
  | some stop => .error (.registry (.stops u.source stop target))

def validate (r : Registry) (target : String) : Except Fault Unit :=
  r.upgrades.forM (fun u => r.validateFrom u target)

end Registry

end DonationLedger
