/-
From objectives to plans.

A simple objective becomes one L2 interface group, or an L3 unicast group on top of one if it
sets addresses. A broadcast objective becomes a flood group over an interface group for each
bucket, a hashed objective an ECMP group over a chain for each bucket; a bucket that pushes a label
is carried by an MPLS interface group and an L3 VPN group, which takes a fresh index.
-/
import FlowGroups.Plan
import FlowGroups.Group.Keys
import FlowGroups.Objective.Error

namespace FlowGroups

/-- the first of all descriptors with the same key -/
def Descriptor.distinct (ds : List Descriptor) : List Descriptor :=
  ds.eraseDupsBy fun d e => d.key == e.key

def Objective.descriptor (o : Objective) (device : DeviceId) (kind : GroupKind)
    (buckets : List Bucket) (key : Key) (id : GroupId) : Descriptor :=
  ⟨device, kind, buckets, key, id, o.app⟩

/-- the treatment of an objective that must have exactly one -/
def Objective.onlyTreatment (o : Objective) : Except PlanError Treatment :=
  match o.treatments with
  | [t] => .ok t
  | [] => .error (.emptyBuckets o.id)
  | ts => .error (.tooManyBuckets o.id ts.length)

/-! ## One interface group -/

/-- what a treatment keeps in an interface group, and the last port it outputs to -/
structure Egress where
  instructions : List Instruction
  port? : Option PortNumber
deriving DecidableEq, Repr

namespace Egress

/-- VLAN pops and outputs are kept, anything else is dropped -/
def step (e : Egress) (i : Instruction) : Egress :=
  match i with
  | .popVlan => { e with instructions := e.instructions ++ [i] }
  | .output port => ⟨e.instructions ++ [i], some port⟩
  | _ => e

def ofTreatment (t : Treatment) : Egress := t.instructions.foldl step ⟨[], none⟩

end Egress

/-- an interface group on a VLAN, with its port -/
def Objective.l2Interface (o : Objective) (device : DeviceId) (t : Treatment)
    (vlan? : Option VlanId) : Except PlanError (Descriptor × PortNumber) :=
  let e := Egress.ofTreatment t
  match e.port?, vlan? with
  | none, _ => .error (.missingOutput o.id)
  | some _, none => .error (.missingVlan o.id)
  | some port, some vlan =>
    .ok (o.descriptor device .indirect [⟨⟨e.instructions⟩⟩]
      (Key.l2Interface device vlan port) (GroupId.l2Interface vlan port), port)

/-! ## An outer group on top of an interface group -/

/-- a treatment divided between an outer and an inner group -/
structure Split where
  outer : List Instruction
  inner : List Instruction
  vlan? : Option VlanId
  port? : Option PortNumber
  setsVlan : Bool
  popsVlan : Bool
  src : MacAddress
  dst : MacAddress
deriving DecidableEq, Repr

namespace Split

def start : Split := ⟨[], [], none, none, false, false, .zero, .zero⟩

/-- addresses and VLANs are set in the outer group, pops and outputs go to the inner one -/
def step (s : Split) (i : Instruction) : Split :=
  match i with
  | .setEthDst mac => { s with dst := mac, outer := s.outer ++ [i] }
  | .setEthSrc mac => { s with src := mac, outer := s.outer ++ [i] }
  | .setVlanId vlan =>
    { s with vlan? := some vlan, setsVlan := true, outer := s.outer ++ [i] }
  | .popVlan => { s with popsVlan := true, inner := s.inner ++ [i] }
  | .output port => { s with port? := some port, inner := s.inner ++ [i] }
  | _ => s

/-- a treatment that sets no VLAN takes the hinted one and sets it in the outer group -/
def withHint (s : Split) (hint? : Option VlanId) : Split :=
  match s.vlan?, hint? with
  | none, some vlan => { s with vlan? := some vlan, outer := s.outer ++ [.setVlanId vlan] }
  | _, _ => s

/-- packets leave untagged if the treatment says nothing about their VLAN -/
def untagged (s : Split) : Split :=
  if s.setsVlan || s.popsVlan then s else { s with inner := .popVlan :: s.inner }

def ofTreatment (t : Treatment) (hint? : Option VlanId) : Split :=
  ((t.instructions.foldl step start).withHint hint?).untagged

end Split

/-- an outer group and the interface group it points to -/
structure Pair where
  inner : Descriptor
  outer : Descriptor
deriving DecidableEq, Repr

/-- an L3 unicast group, or an MPLS interface group, on top of an interface group -/
def Objective.pair (o : Objective) (device : DeviceId) (t : Treatment) (mpls : Bool) :
    Except PlanError Pair :=
  let s := Split.ofTreatment t o.hintedVlan?
  match s.vlan?, s.port? with
  | none, _ => .error (.missingVlan o.id)
  | some _, none => .error (.missingOutput o.id)
  | some vlan, some port =>
    let innerId := GroupId.l2Interface vlan port
    let outer := s.outer ++ [.group innerId]
    let (key, id) :=
      if mpls then (Key.mplsInterface device port, GroupId.mplsInterface port)
      else (Key.l3Unicast device s.src s.dst port, GroupId.l3Unicast s.src s.dst port)
    .ok
      { inner := o.descriptor device .indirect [⟨⟨s.inner⟩⟩]
          (Key.l2Interface device vlan port) innerId
        outer := o.descriptor device .indirect [⟨⟨outer⟩⟩] key id }

/-! ## One bucket of a hashed objective -/

/-- the groups of one bucket; the ECMP group points to `head` -/
structure BucketChain where
  inner : Descriptor
  elements : List Element
  head : Descriptor
  /-- the keys of the groups, outermost first -/
  keys : List Key
deriving DecidableEq, Repr

/-- the treatment of a VPN group: push the label and go on to the group below -/
def vpnTreatment (label : MplsLabel) (below : GroupId) : Treatment :=
  ⟨[.pushMpls, .setMplsLabel label, .setMplsBos true, .copyTtlOut, .group below]⟩

/-- The chain of a bucket, and the last VPN index allocated, which was `index` before. An index is
allocated only to a bucket that is carried by a VPN group. -/
def Objective.bucketChain (o : Objective) (device : DeviceId) (t : Treatment) (index : UInt32) :
    Except PlanError BucketChain × UInt32 :=
  match t.mplsPushes with
  | 0 =>
    match o.pair device t false with
    | .error e => (.error e, index)
    | .ok p =>
      (.ok ⟨p.inner, [.after p.outer [p.inner.key] false], p.outer, [p.outer.key, p.inner.key]⟩,
        index)
  | 1 =>
    match t.mplsLabel?, o.pair device t true with
    | none, _ => (.error (.missingMplsLabel o.id), index)
    | some _, .error e => (.error e, index)
    | some label, .ok p =>
      let index := index + 1
      let vpn := o.descriptor device .indirect [⟨vpnTreatment label p.outer.id⟩]
        (Key.mplsL3Vpn o.id index) (GroupId.mplsL3Vpn index)
      let elements := [.after p.outer [p.inner.key] false, .after vpn [p.outer.key] false]
      (.ok ⟨p.inner, elements, vpn, [vpn.key, p.outer.key, p.inner.key]⟩, index)
  | count => (.error (.tooManyLabels o.id count), index)

/-- the chains of some buckets, up to the first that has none -/
def Objective.bucketChains (o : Objective) (device : DeviceId) :
    List Treatment → UInt32 → Except PlanError (List BucketChain) × UInt32
  | [], index => (.ok [], index)
  | t :: ts, index =>
    match o.bucketChain device t index with
    | (.error e, index) => (.error e, index)
    | (.ok chain, index) =>
      match o.bucketChains device ts index with
      | (.error e, index) => (.error e, index)
      | (.ok chains, index) => (.ok (chain :: chains), index)

/-! ## Whole objectives -/

/-- the plan of a simple objective -/
def Objective.planSimple (o : Objective) (device : DeviceId) : Except PlanError Plan := do
  let t ← o.onlyTreatment
  if t.setsMac then
    let p ← o.pair device t false
    pure
      { objective := o.id
        initial := [p.inner]
        elements := [.after p.outer [p.inner.key] false]
        record := ⟨o.id, [[p.outer.key, p.inner.key]]⟩
        topKey := p.outer.key
        topId := p.outer.id }
  else
    let (group, _) ← o.l2Interface device t (t.vlanId? <|> o.hintedVlan?)
    pure
      { objective := o.id
        initial := [group]
        elements := []
        record := ⟨o.id, [[group.key]]⟩
        topKey := group.key
        topId := group.id }

/-- the interface groups of a broadcast objective; `ports` are taken already -/
def Objective.floodMembers (o : Objective) (device : DeviceId) (vlan : VlanId) :
    List Treatment → List PortNumber → Except PlanError (List Descriptor)
  | [], _ => .ok []
  | t :: ts, ports => do
    let (group, port) ← o.l2Interface device t (some vlan)
    if port ∈ ports then throw (.duplicatePort o.id port)
    let groups ← o.floodMembers device vlan ts (port :: ports)
    pure (group :: groups)

/-- the plan of a broadcast objective -/
def Objective.planBroadcast (o : Objective) (device : DeviceId) : Except PlanError Plan := do
  if o.treatments.isEmpty then throw (.emptyBuckets o.id)
  match o.hintedVlan? <|> o.treatments.findSome? Treatment.vlanId? with
  | none => throw (.missingVlan o.id)
  | some vlan =>
    let groups ← o.floodMembers device vlan o.treatments []
    let key := Key.l2Flood o.id
    let id := GroupId.l2Flood vlan o.id
    let flood := o.descriptor device .all (groups.map (Bucket.toGroup ·.id)) key id
    pure
      { objective := o.id
        initial := Descriptor.distinct groups
        elements := [.after flood (groups.map (·.key)) false]
        record := ⟨o.id, groups.map fun g => [key, g.key]⟩
        topKey := key
        topId := id }

/-- the plan of a hashed objective, from the chains of its buckets -/
def Objective.planEcmp (o : Objective) (device : DeviceId) (chains : List BucketChain)
    (addBucket : Bool) : Plan :=
  let key := Key.l3Ecmp o.id
  let id := GroupId.l3Ecmp o.id
  let ecmp := o.descriptor device .select (chains.map (Bucket.toGroup ·.head.id)) key id
  { objective := o.id
    initial := Descriptor.distinct (chains.map (·.inner))
    elements := chains.flatMap (·.elements) ++ [.after ecmp (chains.map (·.head.key)) addBucket]
    record := ⟨o.id, chains.map fun c => key :: c.keys⟩
    topKey := key
    topId := id }

/-- makes the plans for one device, and numbers its VPN groups -/
structure Planner where
  device : DeviceId
  /-- the VPN index allocated last -/
  vpnIndex : UInt32
deriving DecidableEq, Repr

namespace Planner

def fresh (device : DeviceId) : Planner := ⟨device, 0⟩

/-- the plan of a hashed objective, or of a bucket to add to one -/
def planHashed (p : Planner) (o : Objective) (ts : List Treatment) (addBucket : Bool) :
    Except PlanError Plan × Planner :=
  match o.bucketChains p.device ts p.vpnIndex with
  | (.error e, index) => (.error e, { p with vpnIndex := index })
  | (.ok chains, index) =>
    (.ok (o.planEcmp p.device chains addBucket), { p with vpnIndex := index })

/-- the plan that installs an objective -/
def build (p : Planner) (o : Objective) : Except PlanError Plan × Planner :=
  match o.kind with
  | .simple => (o.planSimple p.device, p)
  | .broadcast => (o.planBroadcast p.device, p)
  | .hashed =>
    if o.treatments.isEmpty then (.error (.emptyBuckets o.id), p)
    else p.planHashed o o.treatments false
  | .failover => (.error (.unsupportedKind o.id o.kind), p)

/-- the plan that adds the one bucket of an objective to its ECMP group -/
def buildAddBucket (p : Planner) (o : Objective) : Except PlanError Plan × Planner :=
  if o.kind = .hashed then
    match o.onlyTreatment with
    | .error e => (.error e, p)
    | .ok t => p.planHashed o [t] true
  else (.error (.wrongKind o.id o.kind), p)

end Planner

/-- the port whose bucket is to be removed from a hashed objective -/
def Objective.removalPort (o : Objective) : Except PlanError PortNumber :=
  if o.kind = .hashed then
    match o.treatments with
    | [] => .error (.emptyBuckets o.id)
    | t :: _ =>
      match t.outputPort? with
      | some port => .ok port
      | none => .error (.missingOutput o.id)
  else .error (.wrongKind o.id o.kind)

end FlowGroups
