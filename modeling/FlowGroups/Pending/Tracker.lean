/-
What is still outstanding for a device: chain elements that wait for groups to exist, and objectives
that wait for their top-level group to be confirmed.

An element is registered under every key it waits on and counts down as they are confirmed. An
objective is registered under its top-level key; it stays there until the key is confirmed, the
objective is taken out, or the key's time runs out.
-/
import FlowGroups.Plan
import FlowGroups.Objective
import FlowGroups.Registry
import FlowGroups.Pending.ExpiryQueue

namespace FlowGroups

/-- names the request that an outcome answers -/
abbrev Ticket := Nat

/-- an objective that waits for its top-level group -/
structure Registrant where
  ticket : Ticket
  objective : Objective
  /-- what to keep in the store once the group is confirmed -/
  record : Record
  topId : GroupId
deriving DecidableEq, Repr

/-- an element that waits for groups -/
structure Waiting where
  id : Nat
  element : Element
  /-- how many confirmations are missing -/
  remaining : Nat
  /-- the top-level key of the plan the element belongs to -/
  owner : Key
deriving DecidableEq, Repr

/-- the objectives under one key -/
structure Registrants where
  /-- the generation of the latest registration -/
  generation : Nat
  list : List Registrant
deriving DecidableEq, Repr

/-- what a confirmed key leads to -/
inductive Resolution
  /-- elements waited for the key, and these wait for nothing else -/
  | advance (ready : List Element)
  /-- these objectives are installed -/
  | complete (registrants : List Registrant)
  /-- nothing waited for the key -/
  | noop
deriving DecidableEq, Repr

structure Tracker where
  /-- in ascending order of ids -/
  waiting : List Waiting
  /-- for each awaited key the ids of the elements that wait for it, ascending -/
  groups : Registry Key (List Nat)
  objectives : Registry Key Registrants
  expiry : ExpiryQueue Key
  /-- how long a registration lives -/
  delay : Nat
  nextId : Nat
  nextGeneration : Nat
deriving DecidableEq

namespace Tracker

def fresh (delay : Nat) : Tracker := ⟨[], .empty, .empty, .empty, delay, 0, 0⟩

/-! ## Registering -/

/-- notes that an element waits for a key -/
def await (id : Nat) (groups : Registry Key (List Nat)) (k : Key) : Registry Key (List Nat) :=
  let ids := (groups.get? k).getD []
  groups.insert k (if id ∈ ids then ids else ids ++ [id])

/-- registers an element for the plan of `owner`; one that waits for nothing is handed back -/
def registerElement (t : Tracker) (e : Element) (owner : Key) : Tracker × Option Element :=
  if e.waitOn = [] then (t, some e)
  else
    ({ t with
        waiting := t.waiting ++ [⟨t.nextId, e, e.waitOn.length, owner⟩]
        groups := e.waitOn.foldl (await t.nextId) t.groups
        nextId := t.nextId + 1 },
      none)

/-- registers an objective; the time of its key starts anew -/
def registerObjective (t : Tracker) (k : Key) (r : Registrant) (now : Nat) : Tracker :=
  let others := ((t.objectives.get? k).map (·.list)).getD []
  { t with
    objectives := t.objectives.insert k ⟨t.nextGeneration, others ++ [r]⟩
    expiry := t.expiry.schedule (now + t.delay) t.nextGeneration k
    nextGeneration := t.nextGeneration + 1 }

/-! ## Resolving -/

/-- counts down the elements with the given ids -/
def countDown (ids : List Nat) (w : Waiting) : Waiting :=
  if w.id ∈ ids then { w with remaining := w.remaining - 1 } else w

/-- is the element one of those counted down, with nothing missing any more? -/
def isReady (ids : List Nat) (w : Waiting) : Bool := w.id ∈ ids && w.remaining == 0

/-- A key is confirmed. Elements that wait for it come first: objectives under the key are looked at
only if there are none. -/
def resolve (t : Tracker) (k : Key) : Tracker × Resolution :=
  match t.groups.get? k with
  | some ids =>
    let counted := t.waiting.map (countDown ids)
    ({ t with
        waiting := counted.filter fun w => !isReady ids w
        groups := t.groups.erase k },
      .advance ((counted.filter (isReady ids)).map (·.element)))
  | none =>
    match t.objectives.get? k with
    | some rs => ({ t with objectives := t.objectives.erase k }, .complete rs.list)
    | none => (t, .noop)

/-! ## Giving up -/

/-- the ids of a key without those of some elements that wait for it; none if nothing is left -/
def strike (dropped : List Waiting) (k : Key) (ids : List Nat) : Option (List Nat) :=
  let left := ids.filter fun id => !dropped.any fun w => w.id = id ∧ k ∈ w.element.waitOn
  if left = [] then none else some left

/-- drops the elements of a plan, and the keys that only they waited for -/
def purge (t : Tracker) (owner : Key) : Tracker :=
  { t with
    waiting := t.waiting.filter fun w => w.owner ≠ owner
    groups := t.groups.filterMap (strike (t.waiting.filter fun w => w.owner = owner)) }

/-- gives up the objectives of an expired entry, unless they were registered again since -/
def expireEntry (t : Tracker) (e : Expiry Key) : Tracker × Option (Key × List Registrant) :=
  match t.objectives.get? e.key with
  | some rs =>
    if rs.generation = e.generation then
      (({ t with objectives := t.objectives.erase e.key } : Tracker).purge e.key,
        some (e.key, rs.list))
    else (t, none)
  | none => (t, none)

def expireEntries (t : Tracker) : List (Expiry Key) → Tracker × List (Key × List Registrant)
  | [] => (t, [])
  | e :: es =>
    let (t, given) := t.expireEntry e
    let (t, rest) := t.expireEntries es
    (t, given.toList ++ rest)

/-- gives up every objective whose time has run out -/
def expire (t : Tracker) (now : Nat) : Tracker × List (Key × List Registrant) :=
  let (expired, kept) := t.expiry.popExpired now
  ({ t with expiry := kept } : Tracker).expireEntries expired

/-- takes the registrants of an objective from under a key -/
def takeAt (t : Tracker) (objective : UInt32) (k : Key) : Tracker × List Registrant :=
  match t.objectives.get? k with
  | none => (t, [])
  | some rs =>
    let taken := rs.list.filter fun r => r.objective.id = objective
    let left := rs.list.filter fun r => r.objective.id ≠ objective
    if left = [] then (({ t with objectives := t.objectives.erase k } : Tracker).purge k, taken)
    else ({ t with objectives := t.objectives.insert k { rs with list := left } }, taken)

def takeFrom (t : Tracker) (objective : UInt32) : List Key → Tracker × List Registrant
  | [] => (t, [])
  | k :: ks =>
    let (t, taken) := t.takeAt objective k
    let (t, rest) := t.takeFrom objective ks
    (t, taken ++ rest)

/-- the keys an objective is registered under -/
def keysOf (t : Tracker) (objective : UInt32) : List Key :=
  (t.objectives.entries.filter fun e => e.2.list.any fun r => r.objective.id == objective).map
    Prod.fst

/-- takes out every registrant of an objective, and the elements of keys left without any -/
def takeObjective (t : Tracker) (objective : UInt32) : Tracker × List Registrant :=
  t.takeFrom objective (t.keysOf objective)

/-! ## Looking -/

def nextDeadline? (t : Tracker) : Option Nat := t.expiry.nextDeadline?

/-- the keys that anything waits for, ascending -/
def pendingKeys (t : Tracker) : List Key := Key.ascending (t.groups.keys ++ t.objectives.keys)

def hasObjective (t : Tracker) (objective : UInt32) : Bool :=
  t.objectives.values.any fun rs => rs.list.any fun r => r.objective.id == objective

def isPending (t : Tracker) (k : Key) : Bool := t.groups.contains k || t.objectives.contains k

def pendingGroups (t : Tracker) : Nat := t.groups.entries.length

def pendingObjectives (t : Tracker) : Nat := (t.objectives.values.flatMap (·.list)).length

/-- how many confirmations the element that creates a group still waits for -/
def waitCount? (t : Tracker) (k : Key) : Option Nat :=
  (t.waiting.find? fun w => w.element.descriptor.key = k).map (·.remaining)

end Tracker

end FlowGroups
