/-
A switch kept in memory: a group table with the requests made to it and the events it has emitted.

In automatic mode a group exists as soon as it is requested. Otherwise a request is held until
somebody confirms it, rejects it, or installs the group without a word.
-/
import FlowGroups.Group
import FlowGroups.Registry

namespace FlowGroups

/-- a request as the switch received it -/
inductive SwitchOp
  | addGroup (d : Descriptor)
  | addBuckets (k : Key) (buckets : List Bucket)
  | removeBuckets (k : Key) (buckets : List Bucket)
  | removeGroup (k : Key)
deriving DecidableEq, Repr

/-- where a group stands: the keys of one device do not clash with another's -/
abbrev Place := DeviceId × Key

structure Switch where
  isAutomatic : Bool
  /-- groups that exist -/
  installed : Registry Place Descriptor
  /-- groups that were requested and not confirmed yet -/
  requested : Registry Place Descriptor
  /-- every request so far, in order -/
  ops : List SwitchOp
  /-- events emitted and not delivered yet, oldest first -/
  events : List Event
deriving DecidableEq

namespace Switch

def fresh (isAutomatic : Bool) : Switch := ⟨isAutomatic, .empty, .empty, [], []⟩

def emit (s : Switch) (e : Event) : Switch := { s with events := s.events ++ [e] }

def log (s : Switch) (op : SwitchOp) : Switch := { s with ops := s.ops ++ [op] }

/-! ## Requests of the controller -/

def group? (s : Switch) (device : DeviceId) (k : Key) : Option Descriptor :=
  s.installed.get? (device, k)

def addGroup (s : Switch) (d : Descriptor) : Switch :=
  let s := s.log (.addGroup d)
  if s.isAutomatic then
    { s with installed := s.installed.insert (d.device, d.key) d }.emit ⟨.added, d.key⟩
  else { s with requested := s.requested.insert (d.device, d.key) d }

/-- changes the buckets of a group that exists -/
def editBuckets (s : Switch) (device : DeviceId) (k : Key) (f : List Bucket → List Bucket) :
    Switch :=
  match s.group? device k with
  | some d =>
    let d := { d with buckets := f d.buckets }
    { s with installed := s.installed.insert (device, k) d }
  | none => s

def addBuckets (s : Switch) (device : DeviceId) (k : Key) (buckets : List Bucket) : Switch :=
  (s.log (.addBuckets k buckets)).editBuckets device k (· ++ buckets)

/-- every bucket equal to one of those given goes -/
def removeBuckets (s : Switch) (device : DeviceId) (k : Key) (buckets : List Bucket) : Switch :=
  (s.log (.removeBuckets k buckets)).editBuckets device k fun bs => bs.filter fun b => b ∉ buckets

/-- a group that was there, if only as a request, is reported removed -/
def removeGroup (s : Switch) (device : DeviceId) (k : Key) : Switch :=
  let place := (device, k)
  let existed := s.installed.contains place || s.requested.contains place
  let s := s.log (.removeGroup k)
  let s :=
    { s with installed := s.installed.erase place, requested := s.requested.erase place }
  if existed then s.emit ⟨.removed, k⟩ else s

/-! ## What happens on the switch's side -/

/-- the first request under a key, on any device -/
def request? (s : Switch) (k : Key) : Option (Place × Descriptor) :=
  s.requested.entries.find? fun e => e.1.2 = k

/-- installs a requested group; false if nothing is requested under the key -/
def installSilently (s : Switch) (k : Key) : Switch × Bool :=
  match s.request? k with
  | some (place, d) =>
    ({ s with
        installed := s.installed.insert place d
        requested := s.requested.erase place }, true)
  | none => (s, false)

/-- installs a requested group and reports it added -/
def confirm (s : Switch) (k : Key) : Switch × Bool :=
  match s.installSilently k with
  | (s, true) => (s.emit ⟨.added, k⟩, true)
  | (s, false) => (s, false)

/-- drops the requests under a key, on all devices, and reports an error -/
def reject (s : Switch) (k : Key) : Switch × Bool :=
  if s.requested.keys.any fun place => place.2 = k then
    let requested := s.requested.filterMap fun place d => if place.2 = k then none else some d
    ({ s with requested }.emit ⟨.error, k⟩, true)
  else (s, false)

def requestedKeys (s : Switch) : List Key := s.requested.keys.map Prod.snd

def installedGroups (s : Switch) : List Descriptor := s.installed.values

end Switch

end FlowGroups
