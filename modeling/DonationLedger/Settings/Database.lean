import DonationLedger.Settings.Path

namespace DonationLedger.Settings

structure Database where
  path : Option String

def Database.resolve (d : Database) (directory : String) : Option String :=
  match d.path with
  | some path => if path.isEmpty then none else some (Path.join directory path)
  | none => none

end DonationLedger.Settings
