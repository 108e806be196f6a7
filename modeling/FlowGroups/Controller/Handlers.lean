/-
What the controller does with each thing that reaches it: requests, events of the switch, sweeps,
and the time.
-/
import FlowGroups.Controller.Work
import FlowGroups.Group.Layout

namespace FlowGroups

inductive Request
  | install (ticket : Ticket) (objective : Objective) (plan : Plan)
  | addBucket (a : Addition)
  | removeBucket (ticket : Ticket) (objective : Objective) (port : PortNumber)
  | remove (ticket : Ticket) (objective : Objective)
deriving DecidableEq, Repr

namespace Controller

def fail (c : Controller) (ticket : Ticket) (e : ObjectiveError) : Controller :=
  c.reply ticket (.failed e)

/-- the store cannot be trusted: the request fails and the controller ends -/
def halt (c : Controller) (ticket : Ticket) (e : StoreError) : Controller :=
  { c.fail ticket (.internal e) with isStopped := true }

/-! ## Installing -/

/-- everything is registered before the first group is asked for -/
def install (c : Controller) (now : Nat) (ticket : Ticket) (o : Objective) (p : Plan) :
    Controller :=
  let tracker := c.tracker.registerObjective p.topKey ⟨ticket, o, p.record, p.topId⟩ now
  let (c, work) := { c with tracker }.registerElements p.topKey p.elements
  c.drain (work ++ p.initial.map .create)

/-! ## Buckets -/

/-- adds a bucket to an objective that is installed, or keeps it for one that will be -/
def addBucket (c : Controller) (a : Addition) : Controller :=
  match c.store.get a.objective.id with
  | .error e => c.halt a.ticket e
  | .ok (some existing) =>
    let (c, work) := c.extend existing a
    c.drain work
  | .ok none =>
    if c.tracker.hasObjective a.objective.id then
      if c.deferred.contains a.objective.id then c.fail a.ticket (.addBucketPending a.objective.id)
      else { c with deferred := c.deferred.insert a.objective.id a }
    else c.fail a.ticket .missing

/-- where a chain leads: the first port its last group outputs to -/
def exitPort? (c : Controller) (chain : List Key) : Option PortNumber := do
  let last ← chain.getLast?
  let d ← c.group? last
  let b ← d.buckets.head?
  b.treatment.outputPort?

/-- The first chain that leads to a port, by its place, and the group that its top-level bucket
points to. If that group is not on the device, nothing further is looked at. -/
def findChain? (c : Controller) (port : PortNumber) : List (List Key) → Option (Nat × GroupId)
  | [] => none
  | chain :: chains =>
    if c.exitPort? chain = some port then
      match chain[1]?.bind c.group? with
      | some d => some (0, d.id)
      | none => none
    else (c.findChain? port chains).map fun (i, id) => (i + 1, id)

/-- only the top-level bucket goes; other chains may still point to the groups of this one -/
def removeBucket (c : Controller) (ticket : Ticket) (o : Objective) (port : PortNumber) :
    Controller :=
  match c.store.get o.id with
  | .error e => c.halt ticket e
  | .ok none => c.fail ticket .missing
  | .ok (some existing) =>
    match c.findChain? port existing.chains with
    | none => c.fail ticket .missing
    | some (i, pointed) =>
      match existing.chains[i]?.bind List.head? with
      | none => c.fail ticket .missing
      | some top =>
        let topId := ((c.group? top).map (·.id)).getD (GroupId.l3Ecmp o.id)
        let c := { c with
          switch := c.switch.removeBuckets c.device top [Bucket.toGroup pointed]
          store := c.store.put { existing with chains := existing.chains.eraseIdx i } }
        c.reply ticket (.installed topId)

/-! ## Giving up -/

/-- fails a registrant, and the bucket that waits for it; keys nobody else awaits are released -/
def abandonOne (c : Controller) (r : Registrant) : Controller :=
  let released := r.record.distinctKeys.filter fun k => !c.tracker.isPending k
  let c := (released.foldl release c).countFailure.fail r.ticket .installationFailed
  match c.deferred.get? r.objective.id with
  | some a =>
    { c with deferred := c.deferred.erase r.objective.id }.fail a.ticket .installationFailed
  | none => c

def abandon (c : Controller) (rs : List Registrant) : Controller := rs.foldl abandonOne c

/-- removes a group from the device -/
def removeGroup (c : Controller) (k : Key) : Controller :=
  { c with switch := c.switch.removeGroup c.device k }.release k

/-- an objective that is not installed yet is given up; one that is loses all of its groups -/
def remove (c : Controller) (ticket : Ticket) (o : Objective) : Controller :=
  let c := match c.deferred.get? o.id with
    | some a => { c with deferred := c.deferred.erase o.id }.fail a.ticket .missing
    | none => c
  let (tracker, racing) := c.tracker.takeObjective o.id
  let c := { c with tracker }
  let c := if racing = [] then c else (c.abandon racing).updateGauges
  match c.store.get o.id with
  | .error e => c.halt ticket e
  | .ok none => c.fail ticket .missing
  | .ok (some existing) =>
    let c := existing.distinctKeys.foldl removeGroup c
    { c with store := (c.store.remove o.id).1 }.reply ticket .removed

def handle (c : Controller) (now : Nat) : Request → Controller
  | .install ticket o p => c.install now ticket o p
  | .addBucket a => c.addBucket a
  | .removeBucket ticket o port => c.removeBucket ticket o port
  | .remove ticket o => c.remove ticket o

/-! ## Events, sweeps and the time -/

def observe (c : Controller) (e : Event) : Controller :=
  match e.kind with
  | .added => c.drain [.resolve e.key]
  -- the group is still pending, and may yet be confirmed
  | .error => c
  | .removed => c.release e.key

/-- resolves every pending key that the device has -/
def sweep (c : Controller) : Controller :=
  let found := c.tracker.pendingKeys.filter fun k => (c.group? k).isSome
  if found = [] then c else c.drain (found.map .resolve)

/-- fails the objectives whose time has run out -/
def expire (c : Controller) (now : Nat) : Controller :=
  let (tracker, expired) := c.tracker.expire now
  (expired.foldl (fun (c : Controller) e => c.abandon e.2) { c with tracker }).updateGauges

/-- the timer goes off once the earliest deadline is there -/
def expireIfDue (c : Controller) (now : Nat) : Controller :=
  match c.tracker.nextDeadline? with
  | some deadline => if deadline ≤ now then c.expire now else c
  | none => c

/-! ## Delivering events -/

/-- the oldest event reaches the controller; a controller that has ended ignores it -/
def deliver (c : Controller) (e : Event) (rest : List Event) : Controller :=
  let c := { c with switch := { c.switch with events := rest } }
  if c.isStopped then c else c.observe e

theorem potential_deliver {c : Controller} {e : Event} {rest : List Event}
    (h : c.switch.events = e :: rest) : (c.deliver e rest).potential < c.potential := by
  simp only [deliver]
  split
  · simp [potential, deferredGroups, h]
  · simp only [observe]
    split
    · have := potential_drain { c with switch := { c.switch with events := rest } }
        [.resolve e.key]
      simp only [Work.total, Work.weight, List.length_cons, List.length_nil] at this
      simp only [potential, deferredGroups, h, List.length_cons] at this ⊢
      omega
    · simp [potential, deferredGroups, h]
    · simp [potential, deferredGroups, h, release]

/-- delivers events, oldest first, until there are none or `done` says so -/
def deliverUntil (done : Controller → Bool) (c : Controller) : Controller :=
  if done c then c
  else
    match h : c.switch.events with
    | [] => c
    | e :: rest =>
      have := potential_deliver h
      deliverUntil done (c.deliver e rest)
termination_by c.potential

end Controller

end FlowGroups
