import DonationLedger.Json.Display

namespace DonationLedger

/-- Stands for the report of what does not have its declared shape. -/
def shapeReport : String := "<validation>"

inductive Access where
  | read
  | write
  | delete
  deriving DecidableEq, Repr

def Access.name : Access → String
  | .read => "read"
  | .write => "write"
  | .delete => "delete"

inductive StorageCause where
  | refused (access : Access) (text : String)
  | misshapen
  | stated (text : String)
  deriving DecidableEq, Repr

inductive Refusal where
  | stated (text : String)
  | storage (key : String) (cause : StorageCause)
  | notFound (key : String)
  | corrupt (key reason : String)
  | unauthorized (owner : String)
  | invalidDestination (address reason : String)
  | identityMismatch (contract expected : String)
  | unsupportedVersion (version : String)
  | invalidMessage (family reason : String)
  | invalidConfig (field reason : String)
  | overflow (field : String) (value limit : Int)
  deriving DecidableEq, Repr

namespace Refusal

def ofParts (parts : List Json) : Refusal := stated (Json.displayAll parts)

def kind : Refusal → String
  | stated _ => "contract_error"
  | storage _ _ => "storage_fault"
  | notFound _ => "not_found"
  | corrupt _ _ => "corrupt"
  | unauthorized _ => "unauthorized"
  | invalidDestination _ _ => "invalid_destination"
  | identityMismatch _ _ => "identity_mismatch"
  | unsupportedVersion _ => "unsupported_version"
  | invalidMessage _ _ => "invalid_message"
  | invalidConfig _ _ => "invalid_config"
  | overflow _ _ _ => "overflow"

def message : Refusal → String
  | stated text => text
  | storage _ (.refused access text) => access.name ++ " failed: " ++ text
  | storage key .misshapen =>
      "Refusing to write invalid value under " ++ Text.quoted key ++ ": " ++ shapeReport
  | storage _ (.stated text) => text
  | notFound key => "No value stored under " ++ Text.quoted key
  | corrupt key reason =>
      "Value under " ++ Text.quoted key ++ " failed to deserialize: " ++ reason
  | unauthorized owner => "Unauthorized - only " ++ owner ++ " can call it"
  | invalidDestination address reason =>
      "Invalid address " ++ Text.quoted address ++ ": " ++ reason
  | identityMismatch contract expected =>
      "Invalid contract to migrate from: " ++ contract ++ " (expected " ++ expected ++ ")"
  | unsupportedVersion version => "Unsupported contract version for migration: " ++ version
  | invalidMessage family reason => "Invalid " ++ family ++ " message: " ++ reason
  | invalidConfig field reason => "Invalid parent config field " ++ field ++ ": " ++ reason
  | overflow field value limit =>
      "Cannot increment " ++ field ++ " past " ++ toString limit
        ++ " (currently " ++ toString value ++ ")"

def details : Refusal → List (String × Json)
  | stated _ => []
  | storage key _ => [("key", .str key)]
  | notFound key => [("key", .str key)]
  | corrupt key reason => [("key", .str key), ("reason", .str reason)]
  | unauthorized owner => [("owner", .str owner)]
  | invalidDestination address reason => [("address", .str address), ("reason", .str reason)]
  | identityMismatch contract expected =>
      [("contract", .str contract), ("expected", .str expected)]
  | unsupportedVersion version => [("version", .str version)]
  | invalidMessage family reason => [("family", .str family), ("reason", .str reason)]
  | invalidConfig field reason => [("field", .str field), ("reason", .str reason)]
  | overflow field value limit =>
      [("field", .str field), ("value", .int value), ("limit", .int limit)]

end Refusal

inductive AddressFault where
  | empty
  | tooLong
  | malformed
  deriving DecidableEq, Repr

def AddressFault.text : AddressFault → String
  | .empty => "address is empty"
  | .tooLong => "address longer than 64 characters"
  | .malformed => "address must be lowercase alphanumeric"

inductive RegistryFault where
  | duplicate (source : String)
  | backward (source target : String)
  | stops (source stop target : String)
  deriving DecidableEq, Repr

def RegistryFault.text : RegistryFault → String
  | .duplicate source => "Duplicate upgrade handler for " ++ source
  | .backward source target => "Upgrade " ++ source ++ " -> " ++ target ++ " does not move forward"
  | .stops source stop target =>
      "Upgrade chain from " ++ source ++ " stops at " ++ stop ++ ", not at the current version "
        ++ target

inductive ShareFault where
  | undefined
  | beyondRange
  | infinite
  | notNumber
  deriving DecidableEq, Repr

def ShareFault.text : ShareFault → String
  | .undefined => "the product is undefined"
  | .beyondRange => "the product is beyond the range of decimal numbers"
  | .infinite => "cannot convert Infinity to integer"
  | .notNumber => "cannot convert NaN to integer"

inductive Fault where
  | refusal (r : Refusal)
  | misshapen
  | address (f : AddressFault)
  | registry (f : RegistryFault)
  | share (f : ShareFault)
  | badValue (text : String)
  | missingKey (text : String)
  | badNumeral
  | longNamespace
  | closedListing
  | noField (name : String)
  | wrongKind
  | tooGreat
  | tooDeep
  deriving DecidableEq, Repr

structure Failure where
  kind : String
  message : String
  details : List (String × Json)

namespace Fault

def text : Fault → String
  | refusal r => r.message
  | misshapen => shapeReport
  | address f => f.text
  | registry f => f.text
  | share f => f.text
  | badValue text => text
  | missingKey text => Text.quoted text
  | badNumeral => "not a decimal number"
  | longNamespace => "int too big to convert"
  | closedListing => "Cannot operate on a closed database."
  | noField name => "no field " ++ name
  | wrongKind => "a value of another kind"
  | tooGreat => "a whole number beyond the range of floating-point numbers"
  | tooDeep => "a value nests too deep to be written"

def kind : Fault → String
  | refusal r => r.kind
  | _ => "execution_error"

def details : Fault → List (String × Json)
  | refusal r => r.details
  | _ => []

def failure (f : Fault) : Failure := ⟨f.kind, f.text, f.details⟩

def isRefusal : Fault → Bool
  | refusal _ => true
  | _ => false

end Fault

end DonationLedger
