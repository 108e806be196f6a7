/-
How an objective fails, as its owner is told.
-/
import FlowGroups.Plan.Error

namespace FlowGroups

/-- the store holds bytes that are no record; nothing can go on after that -/
inductive StoreError
  | undecodableRecord
deriving DecidableEq, Repr

namespace StoreError

def cause : StoreError → String
  | undecodableRecord => "error decoding next group record"

def message (e : StoreError) : String := "fatal error: " ++ e.cause

end StoreError

inductive ObjectiveError
  /-- no plan could be made for the objective -/
  | unplannable (cause : PlanError)
  /-- one bucket is already waiting for the objective to be installed -/
  | addBucketPending (objective : UInt32)
  /-- a written objective, or what to do with it, cannot be read -/
  | malformed (part : String)
  | unknownKind (given : String)
  /-- the device never confirmed the top-level group -/
  | installationFailed
  /-- there is no such chain of groups -/
  | missing
  | internal (cause : StoreError)
deriving DecidableEq, Repr

namespace ObjectiveError

/-- the classes that failures are sorted into -/
inductive Category
  | badParams
  | unsupported
  | unknown
  | groupInstallationFailed
  | groupMissing
  | internal
deriving DecidableEq, Repr

def category : ObjectiveError → Category
  | unplannable cause => if cause.isUnsupported then .unsupported else .badParams
  | addBucketPending _ | malformed _ => .badParams
  | unknownKind _ => .unknown
  | installationFailed => .groupInstallationFailed
  | missing => .groupMissing
  | internal _ => .internal

/-- what there is to say beyond the category -/
def detail : ObjectiveError → String
  | unplannable cause => cause.message
  | addBucketPending n => s!"an add-bucket is already pending for next objective {n}"
  | malformed part => s!"bad {part}"
  | unknownKind given => given
  | internal cause => cause.message
  | installationFailed | missing => ""

def message (e : ObjectiveError) : String :=
  match e.category with
  | .badParams => "bad params: " ++ e.detail
  | .unsupported => "unsupported: " ++ e.detail
  | .unknown => "unknown next objective type: " ++ e.detail
  | .groupInstallationFailed => "group installation failed"
  | .groupMissing => "group chain is missing"
  | .internal => "internal error: " ++ e.detail

end ObjectiveError

/-- reads the name of a kind; any other text is the error -/
def ObjectiveKind.ofName (s : String) : Except ObjectiveError ObjectiveKind :=
  match ofName? s with
  | some kind => .ok kind
  | none => .error (.unknownKind s)

/-- reads the code of a kind; `text` is the code as it was written -/
def ObjectiveKind.ofCode (code : Option Nat) (text : String) :
    Except ObjectiveError ObjectiveKind :=
  match code.bind ofCode? with
  | some kind => .ok kind
  | none => .error (.unknownKind s!"type code {text}")

end FlowGroups
