/-
Why an objective cannot be turned into groups. Every reason is found before anything is sent to a
device.
-/
import FlowGroups.Objective

namespace FlowGroups

inductive PlanError
  /-- neither a treatment nor the metadata names an egress VLAN -/
  | missingVlan (objective : UInt32)
  | missingOutput (objective : UInt32)
  /-- a label is pushed and its value is never set -/
  | missingMplsLabel (objective : UInt32)
  | tooManyLabels (objective : UInt32) (count : Nat)
  | duplicatePort (objective : UInt32) (port : PortNumber)
  | emptyBuckets (objective : UInt32)
  | tooManyBuckets (objective : UInt32) (count : Nat)
  /-- only hashed objectives take bucket updates -/
  | wrongKind (objective : UInt32) (kind : ObjectiveKind)
  | unsupportedKind (objective : UInt32) (kind : ObjectiveKind)
deriving DecidableEq, Repr

namespace PlanError

def message : PlanError → String
  | missingVlan n =>
    s!"next objective {n} carries no egress vlan, neither in its treatment nor in its metadata"
  | missingOutput n => s!"next objective {n} has a bucket without an output port"
  | missingMplsLabel n => s!"next objective {n} pushes an mpls label without setting its value"
  | tooManyLabels n count =>
    s!"next objective {n} pushes {count} mpls labels in one bucket, at most 1 is supported"
  | duplicatePort n port =>
    s!"next objective {n} outputs to port {port.val} in more than one bucket"
  | emptyBuckets n => s!"next objective {n} has no buckets"
  | tooManyBuckets n count => s!"next objective {n} has {count} buckets, exactly 1 is allowed"
  | wrongKind n kind =>
    s!"next objective {n} of type {kind.name} does not support bucket updates"
  | unsupportedKind n kind => s!"next objective {n} has unsupported type {kind.name}"

/-- is the objective well formed and only beyond what the pipeline can do? -/
def isUnsupported : PlanError → Bool
  | tooManyLabels .. | unsupportedKind .. => true
  | _ => false

end PlanError

end FlowGroups
