/-
Objectives: forwarding behaviour asked for by an application, with no word about groups.
-/
import FlowGroups.Treatment

namespace FlowGroups

/-- what a selector looks for in a packet -/
inductive Criterion
  | vlanVid (vlan : VlanId)
  | inPort (port : PortNumber)
  | ethType (type : UInt16)
deriving DecidableEq, Repr

/-- match criteria, given with an objective as a hint -/
structure Selector where
  criteria : List Criterion
deriving DecidableEq, Repr

/-- the first VLAN the selector matches on -/
def Selector.vlanId? (s : Selector) : Option VlanId :=
  s.criteria.findSome? fun
    | .vlanVid vlan => some vlan
    | _ => none

inductive ObjectiveKind
  /-- balance the load over all buckets -/
  | hashed
  /-- copy to every bucket -/
  | broadcast
  /-- use the first live bucket -/
  | failover
  /-- one bucket only -/
  | simple
deriving DecidableEq, Repr

namespace ObjectiveKind

def name : ObjectiveKind → String
  | .hashed => "HASHED"
  | .broadcast => "BROADCAST"
  | .failover => "FAILOVER"
  | .simple => "SIMPLE"

/-- reads a name in any ASCII case -/
def ofName? (s : String) : Option ObjectiveKind :=
  match s.toUpper with
  | "HASHED" => some .hashed
  | "BROADCAST" => some .broadcast
  | "FAILOVER" => some .failover
  | "SIMPLE" => some .simple
  | _ => none

/-- kinds are numbered from 0 in the order they are declared in -/
def ofCode? : Nat → Option ObjectiveKind
  | 0 => some .hashed
  | 1 => some .broadcast
  | 2 => some .failover
  | 3 => some .simple
  | _ => none

end ObjectiveKind

/-- an objective; its id is unique per device, and it never changes once submitted -/
structure Objective where
  id : UInt32
  kind : ObjectiveKind
  treatments : List Treatment
  app : AppId
  hints : Option Selector
deriving DecidableEq, Repr

/-- the VLAN hinted at by the objective's metadata -/
def Objective.hintedVlan? (o : Objective) : Option VlanId := o.hints.bind Selector.vlanId?

end FlowGroups
