/-
The group controller of a device, as a state with the switch and the store it works on.

It receives objectives with their plans, asks the switch for groups in the order the plans demand,
and moves on when a group is confirmed, by an event or because a sweep finds it there. Everything it
says to the owners of objectives is in its list of replies.
-/
import FlowGroups.Pending.Tracker
import FlowGroups.Switch
import FlowGroups.Store
import FlowGroups.Objective.Error

namespace FlowGroups

/-- how a request ends -/
inductive Outcome
  /-- the id of the objective's top-level group -/
  | installed (id : GroupId)
  | removed
  | failed (e : ObjectiveError)
deriving DecidableEq, Repr

structure Reply where
  ticket : Ticket
  outcome : Outcome
deriving DecidableEq, Repr

structure Metrics where
  /-- groups requested from the device -/
  submitted : Nat
  /-- objectives installed -/
  installed : Nat
  /-- objectives failed -/
  failed : Nat
  /-- keys with waiting elements, when last looked at -/
  pendingGroups : Nat
  /-- objectives waiting for confirmation, when last looked at -/
  pendingObjectives : Nat
deriving DecidableEq, Repr

def Metrics.zero : Metrics := ⟨0, 0, 0, 0, 0⟩

/-- a bucket to add to a hashed objective -/
structure Addition where
  ticket : Ticket
  objective : Objective
  plan : Plan
deriving DecidableEq, Repr

structure Controller where
  device : DeviceId
  tracker : Tracker
  /-- keys whose creation was requested and not confirmed yet -/
  requested : List Key
  /-- buckets that wait for their objective to be installed, one at most for each -/
  deferred : Registry UInt32 Addition
  switch : Switch
  store : Store
  metrics : Metrics
  /-- everything answered so far, in order -/
  replies : List Reply
  /-- a fault of the store has ended the controller -/
  isStopped : Bool
deriving DecidableEq

namespace Controller

/-- a controller that has seen nothing yet, over a switch and a store -/
def start (device : DeviceId) (delay : Nat) (switch : Switch) (store : Store)
    (metrics : Metrics) : Controller :=
  ⟨device, .fresh delay, [], .empty, switch, store, metrics, [], false⟩

def reply (c : Controller) (ticket : Ticket) (outcome : Outcome) : Controller :=
  { c with replies := c.replies ++ [⟨ticket, outcome⟩] }

/-- the group is no longer on its way -/
def release (c : Controller) (k : Key) : Controller :=
  { c with requested := c.requested.filter fun j => j ≠ k }

def updateGauges (c : Controller) : Controller :=
  { c with metrics := { c.metrics with
      pendingGroups := c.tracker.pendingGroups
      pendingObjectives := c.tracker.pendingObjectives } }

def countFailure (c : Controller) : Controller :=
  { c with metrics := { c.metrics with failed := c.metrics.failed + 1 } }

def group? (c : Controller) (k : Key) : Option Descriptor := c.switch.group? c.device k

end Controller

end FlowGroups
