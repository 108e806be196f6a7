/-
Groups that share a key. The groups of all buckets of an objective are made one by one, and of those with one key only
the first is ever asked for. The key of a group says where packets go, and leaves out what is done to them on the way.

- `shared_groups_agree`: groups with one key have one id and kind. They have the same buckets, all of them, if and only
  if the buckets of the objective that share a group agree on what is done there (`Coherent`); then no group is lost.
- `groups_lost_under_one_key`: two buckets that differ in the VLAN share an L3 unicast group; two that differ in a VLAN
  pop share an interface group, and the second one is not planned.
-/
import FlowGroups.Proofs.Numbering

namespace FlowGroups

/-! ## What the buckets of an objective share -/

/-- where a group on top of an interface group leads: to a neighbour through a port, or into a tunnel there -/
inductive Hop
  | neighbour (src dst : MacAddress) (port : PortNumber)
  | tunnel (port : PortNumber)
deriving DecidableEq, Repr

namespace Hop

def port : Hop → PortNumber
  | neighbour _ _ port | tunnel port => port

def key (device : DeviceId) : Hop → Key
  | neighbour src dst port => Key.l3Unicast device src dst port
  | tunnel port => Key.mplsInterface device port

def groupId : Hop → GroupId
  | neighbour src dst port => GroupId.l3Unicast src dst port
  | tunnel port => GroupId.mplsInterface port

theorem level_key (device : DeviceId) (y : Hop) : (y.key device).level = 1 := by
  cases y
  · exact Key.level_l3Unicast _ _ _ _
  · exact Key.level_mplsInterface _ _

end Hop

theorem Outlet.level_key (device : DeviceId) (x : Outlet) : (x.key device).level = 0 := Key.level_l2Interface _ _ _

namespace Objective

/-- what is done to the packets of a bucket in its interface group -/
def egress (o : Objective) (t : Treatment) : List Instruction :=
  if o.stacked t then (Split.ofTreatment t o.hintedVlan?).inner else (Egress.ofTreatment t).instructions

/-- what is done to the packets of a bucket in the group on top of its interface group -/
def rewrite (o : Objective) (t : Treatment) : List Instruction :=
  if o.stacked t then (Split.ofTreatment t o.hintedVlan?).outer else []

/-- where the group on top of the interface group of a bucket leads -/
def hop? (o : Objective) (t : Treatment) : Option Hop :=
  let s := Split.ofTreatment t o.hintedVlan?
  if o.stacked t then
    s.port?.map fun port => if o.kind = .hashed ∧ t.mplsPushes = 1 then .tunnel port else .neighbour s.src s.dst port
  else none

def hops (o : Objective) : List Hop := o.treatments.filterMap o.hop?

/-- no two hops of the objective have groups under one key -/
def SeparatesHops (o : Objective) (device : DeviceId) : Prop :=
  ∀ y ∈ o.hops, ∀ z ∈ o.hops, y.key device = z.key device → y = z

instance (o : Objective) (device : DeviceId) : Decidable (o.SeparatesHops device) :=
  inferInstanceAs (Decidable (∀ y ∈ o.hops, ∀ z ∈ o.hops, y.key device = z.key device → y = z))

/-- buckets that share a group agree on what is done there -/
structure Coherent (o : Objective) : Prop where
  egress : ∀ t ∈ o.treatments, ∀ t' ∈ o.treatments, o.outlet? t = o.outlet? t' → o.egress t = o.egress t'
  rewrite : ∀ t ∈ o.treatments, ∀ t' ∈ o.treatments, o.hop? t = o.hop? t' → o.rewrite t = o.rewrite t'

end Objective

/-! ## The VLAN of a treatment -/

def Instruction.vlan? : Instruction → Option VlanId
  | .setVlanId vlan => some vlan
  | _ => none

/-- the VLAN that packets have after some instructions, if these set one -/
def lastVlan? (is : List Instruction) : Option VlanId := (is.filterMap Instruction.vlan?).getLast?

namespace Split

@[simp] theorem vlan_untagged (s : Split) : s.untagged.vlan? = s.vlan? := by
  unfold untagged
  split <;> rfl

/-- the VLAN of the interface group is the one that is set last on the way there -/
theorem vlan_ofTreatment (t : Treatment) (hint? : Option VlanId) :
    (ofTreatment t hint?).vlan? = lastVlan? (ofTreatment t hint?).outer := by
  have hread : (t.instructions.foldl step start).vlan? = lastVlan? (t.instructions.foldl step start).outer := by
    refine List.foldlRecOn (motive := fun s => s.vlan? = lastVlan? s.outer) t.instructions step ?_ ?_
    · rfl
    intro s h i _
    cases i <;> simp [step, lastVlan?, Instruction.vlan?, List.filterMap_append, h]
  rw [ofTreatment, vlan_untagged, outer_untagged]
  unfold withHint
  split
  · simp [lastVlan?, Instruction.vlan?, List.filterMap_append]
  · exact hread

end Split

namespace Objective

variable {o : Objective} {t : Treatment} {x : Outlet} {y : Hop}

theorem stacked_of_hop (h : o.hop? t = some y) : o.stacked t = true := by
  unfold hop? at h
  dsimp only at h
  split at h
  · assumption
  · cases h

theorem port_of_hop (h : o.hop? t = some y) : (Egress.ofTreatment t).port? = some y.port := by
  have hstacked := stacked_of_hop h
  simp only [hop?, hstacked, if_true, Option.map_eq_some_iff] at h
  obtain ⟨port, hport, rfl⟩ := h
  rw [← Split.port_ofTreatment t o.hintedVlan?, hport]
  split <;> rfl

theorem outletVlan_eq_lastVlan (h : o.stacked t = true) : o.outletVlan? t = lastVlan? (o.rewrite t) := by
  rw [rewrite, if_pos h, ← Split.vlan_ofTreatment, outletVlan_of_stacked h]

theorem of_outlet (h : o.outlet? t = some x) :
    o.outletVlan? t = some x.vlan ∧ (Egress.ofTreatment t).port? = some x.port := by
  unfold outlet? at h
  split at h
  · rename_i vlan port hvlan hport
    cases h
    exact ⟨hvlan, hport⟩
  · cases h

/-- nothing is done on the way to the interface group if there is no group on top of it -/
theorem rewrite_of_no_hop (hx : o.outlet? t = some x) (hy : o.hop? t = none) : o.rewrite t = [] := by
  obtain ⟨-, hport⟩ := of_outlet hx
  rw [← Split.port_ofTreatment t o.hintedVlan?] at hport
  by_cases hstacked : o.stacked t = true
  · simp [hop?, hstacked, hport] at hy
  · simp [rewrite, hstacked]

/-- the outlet of a bucket follows from its hop and from what is done on the way there -/
theorem outlet_eq {t' : Treatment} {x' : Outlet} (hx : o.outlet? t = some x) (hx' : o.outlet? t' = some x')
    (hy : o.hop? t = some y) (hy' : o.hop? t' = some y) (h : o.rewrite t = o.rewrite t') : x = x' := by
  obtain ⟨hvlan, hport⟩ := of_outlet hx
  obtain ⟨hvlan', hport'⟩ := of_outlet hx'
  rw [outletVlan_eq_lastVlan (stacked_of_hop hy), h, ← outletVlan_eq_lastVlan (stacked_of_hop hy'), hvlan'] at hvlan
  rw [port_of_hop hy] at hport
  rw [port_of_hop hy'] at hport'
  obtain ⟨vlan, port⟩ := x
  obtain ⟨vlan', port'⟩ := x'
  cases hvlan
  cases hport
  cases hport'
  rfl

end Objective

/-! ## The groups of a bucket -/

namespace Objective

variable {o : Objective} {device : DeviceId} {t : Treatment}

def interfaceGroup (o : Objective) (device : DeviceId) (x : Outlet) (is : List Instruction) : Descriptor :=
  o.descriptor device .indirect [⟨⟨is⟩⟩] (x.key device) x.groupId

def hopGroup (o : Objective) (device : DeviceId) (x : Outlet) (y : Hop) (is : List Instruction) : Descriptor :=
  o.descriptor device .indirect [⟨⟨is ++ [.group x.groupId]⟩⟩] (y.key device) y.groupId

theorem level_interfaceGroup (o : Objective) (device : DeviceId) (x : Outlet) (is : List Instruction) :
    (o.interfaceGroup device x is).key.level = 0 := x.level_key device

theorem level_hopGroup (o : Objective) (device : DeviceId) (x : Outlet) (y : Hop) (is : List Instruction) :
    (o.hopGroup device x y is).key.level = 1 := y.level_key device

/-- The chain of a bucket has its interface group, on top of it the group of its hop, and on that maybe a VPN group, if
the objective is hashed. -/
structure Renders (o : Objective) (device : DeviceId) (t : Treatment) (c : BucketChain) (x : Outlet) : Prop where
  outlet : o.outlet? t = some x
  inner : c.inner = o.interfaceGroup device x (o.egress t)
  outer : (o.hop? t = none ∧ c.elements = []) ∨
    ∃ y vpns, o.hop? t = some y ∧ c.elements.map (·.descriptor) = o.hopGroup device x y (o.rewrite t) :: vpns ∧
      ∀ d ∈ vpns, d.isVpn = true ∧ o.kind = .hashed

/-- an interface group is named after the outlet of the bucket -/
theorem group_of_l2Interface {d : Descriptor} {port : PortNumber}
    (h : o.l2Interface device t (o.outletVlan? t) = .ok (d, port)) :
    ∃ x, o.outlet? t = some x ∧ d = o.interfaceGroup device x (Egress.ofTreatment t).instructions := by
  unfold l2Interface at h
  dsimp only at h
  split at h <;> cases h
  rename_i vlan hvlan hport
  exact ⟨⟨vlan, port⟩, outlet?_eq_some hvlan hport, rfl⟩

/-- both groups of a pair are named after the outlet and the hop of the bucket -/
theorem groups_of_pair {mpls : Bool} {p : Pair} (h : o.pair device t mpls = .ok p) (hstacked : o.stacked t = true)
    (hmpls : mpls = true ↔ o.kind = .hashed ∧ t.mplsPushes = 1) :
    ∃ x y, o.outlet? t = some x ∧ o.hop? t = some y ∧ p.inner = o.interfaceGroup device x (o.egress t) ∧
      p.outer = o.hopGroup device x y (o.rewrite t) := by
  unfold pair at h
  dsimp only at h
  split at h <;> cases h
  rename_i vlan port hvlan hport
  have houtlet : o.outlet? t = some ⟨vlan, port⟩ := by
    apply outlet?_eq_some
    · rw [outletVlan_of_stacked hstacked, hvlan]
    · rw [← Split.port_ofTreatment, hport]
  have hhop : o.hop? t = some (if mpls then .tunnel port else .neighbour (Split.ofTreatment t o.hintedVlan?).src
      (Split.ofTreatment t o.hintedVlan?).dst port) := by
    simp only [hop?, hstacked, if_true, hport, Option.map_some, hmpls]
  refine ⟨_, _, houtlet, hhop, ?_, ?_⟩
  · simp only [interfaceGroup, egress, hstacked, if_true]
    rfl
  · simp only [hopGroup, rewrite, hstacked, if_true]
    cases mpls <;> rfl

/-- whichever way the chain of a bucket is made, these are its groups -/
theorem Makes.renders {c : BucketChain} (h : o.Makes device t c) : ∃ x, o.Renders device t c x := by
  cases h with
  | group hflat hmade =>
    obtain ⟨x, hx, hinner⟩ := group_of_l2Interface hmade
    refine ⟨x, hx, ?_, .inl ⟨by simp [hop?, hflat], rfl⟩⟩
    rw [egress, hflat]
    exact hinner
  | pair hstacked hplain hmade =>
    obtain ⟨x, y, hx, hy, hinner, houter⟩ := groups_of_pair hmade hstacked (by simp +contextual [hplain])
    exact ⟨x, hx, hinner, .inr ⟨y, [], hy, congrArg (· :: []) houter, by simp⟩⟩
  | label hkind hpushes hmade =>
    obtain ⟨x, y, hx, hy, hinner, houter⟩ :=
      groups_of_pair hmade (by simp [stacked, hkind]) (by simp [hkind, hpushes])
    have hvpn : ∀ i, (Key.mplsL3Vpn o.id i).level = 2 := Key.level_mplsL3Vpn o.id
    refine ⟨x, hx, hinner, .inr ⟨y, [_], hy, congrArg (· :: [_]) houter, ?_⟩⟩
    simp [Descriptor.isVpn, vpnGroup, descriptor, Element.after, hvpn, hkind]

/-- the chains are those of the buckets, in their order -/
abbrev RendersAll (o : Objective) (device : DeviceId) : List Treatment → List BucketChain → Prop :=
  List.Forall₂ fun t c => ∃ x, o.Renders device t c x

end Objective

namespace Objective.RendersAll

variable {o : Objective} {device : DeviceId} {ts : List Treatment} {cs : List BucketChain}

/-- each group that is made is an interface group, the group of a hop, or a VPN group -/
theorem cases_of_mem (h : o.RendersAll device ts cs) {d : Descriptor} (hd : d ∈ cs.flatMap BucketChain.groups) :
    (∃ t ∈ ts, ∃ x, o.outlet? t = some x ∧ d = o.interfaceGroup device x (o.egress t)) ∨
      (∃ t ∈ ts, ∃ x y, o.outlet? t = some x ∧ o.hop? t = some y ∧ d = o.hopGroup device x y (o.rewrite t)) ∨
      (d.isVpn = true ∧ o.kind = .hashed) := by
  obtain ⟨c, hc, hd⟩ := List.mem_flatMap.1 hd
  obtain ⟨t, ht, x, hr⟩ := forall₂_exists_left h c hc
  rcases List.mem_cons.1 hd with rfl | hd
  · exact .inl ⟨t, ht, x, hr.outlet, hr.inner⟩
  · rcases hr.outer with ⟨-, hnone⟩ | ⟨y, vpns, hy, helements, hvpns⟩
    · simp [hnone] at hd
    · rw [helements] at hd
      rcases List.mem_cons.1 hd with rfl | hd
      · exact .inr (.inl ⟨t, ht, x, y, hr.outlet, hy, rfl⟩)
      · exact .inr (.inr (hvpns d hd))

/-- groups with one key are both interface groups of one outlet, both groups of one hop, or one and the same group -/
theorem cases_of_key (h : o.RendersAll device o.treatments cs) (hsep : o.Separates device)
    (hhops : o.SeparatesHops device)
    (hvpns : (((cs.flatMap BucketChain.groups).filter Descriptor.isVpn).map (·.key)).Nodup) {d e : Descriptor}
    (hd : d ∈ cs.flatMap BucketChain.groups) (he : e ∈ cs.flatMap BucketChain.groups) (hkey : d.key = e.key) :
    (∃ t ∈ o.treatments, ∃ t' ∈ o.treatments, ∃ x, o.outlet? t = some x ∧ o.outlet? t' = some x ∧
        d = o.interfaceGroup device x (o.egress t) ∧ e = o.interfaceGroup device x (o.egress t')) ∨
      (∃ t ∈ o.treatments, ∃ t' ∈ o.treatments, ∃ x x' y, o.outlet? t = some x ∧ o.outlet? t' = some x' ∧
        o.hop? t = some y ∧ o.hop? t' = some y ∧
        d = o.hopGroup device x y (o.rewrite t) ∧ e = o.hopGroup device x' y (o.rewrite t')) ∨
      d = e := by
  have hlevel : d.key.level = e.key.level := congrArg Key.level hkey
  rcases h.cases_of_mem hd with ⟨t, ht, x, hx, rfl⟩ | ⟨t, ht, x, y, hx, hy, rfl⟩ | ⟨hdVpn, -⟩
  · rw [level_interfaceGroup] at hlevel
    rcases h.cases_of_mem he with ⟨t', ht', x', hx', rfl⟩ | ⟨t', ht', x', y', hx', hy', rfl⟩ | ⟨heVpn, -⟩
    · obtain rfl : x = x' := hsep x (List.mem_filterMap.2 ⟨t, ht, hx⟩) x' (List.mem_filterMap.2 ⟨t', ht', hx'⟩) hkey
      exact .inl ⟨t, ht, t', ht', x, hx, hx', rfl, rfl⟩
    · simp [level_hopGroup] at hlevel
    · simp [Descriptor.isVpn, ← hlevel] at heVpn
  · rw [level_hopGroup] at hlevel
    rcases h.cases_of_mem he with ⟨t', ht', x', hx', rfl⟩ | ⟨t', ht', x', y', hx', hy', rfl⟩ | ⟨heVpn, -⟩
    · simp [level_interfaceGroup] at hlevel
    · obtain rfl : y = y' := hhops y (List.mem_filterMap.2 ⟨t, ht, hy⟩) y' (List.mem_filterMap.2 ⟨t', ht', hy'⟩) hkey
      exact .inr (.inl ⟨t, ht, t', ht', x, x', y, hx, hx', hy, hy', rfl, rfl⟩)
    · simp [Descriptor.isVpn, ← hlevel] at heVpn
  · have heVpn : e.isVpn = true := by
      rw [Descriptor.isVpn, ← hlevel]
      exact hdVpn
    refine .inr (.inr (List.inj_on_of_nodup_map hvpns ?_ ?_ hkey))
    · exact List.mem_filter.2 ⟨hd, hdVpn⟩
    · exact List.mem_filter.2 ⟨he, heVpn⟩

variable (h : o.RendersAll device o.treatments cs)
include h

/-- the interface group of a bucket is made, and so is the group of its hop -/
theorem made {t : Treatment} (ht : t ∈ o.treatments) : ∃ x, o.outlet? t = some x ∧
    o.interfaceGroup device x (o.egress t) ∈ cs.flatMap BucketChain.groups ∧
    ∀ y, o.hop? t = some y → o.hopGroup device x y (o.rewrite t) ∈ cs.flatMap BucketChain.groups := by
  obtain ⟨c, hc, x, hr⟩ := forall₂_exists_right h t ht
  refine ⟨x, hr.outlet, List.mem_flatMap.2 ⟨c, hc, ?_⟩, fun y hy => List.mem_flatMap.2 ⟨c, hc, ?_⟩⟩
  · rw [← hr.inner]
    exact List.mem_cons_self
  · rcases hr.outer with ⟨hnone, -⟩ | ⟨y', vpns, hy', helements, -⟩
    · rw [hnone] at hy
      cases hy
    · rw [hy'] at hy
      cases hy
      apply List.mem_cons_of_mem
      rw [helements]
      exact List.mem_cons_self

/-- buckets agree on what is done in a group if all groups that are made under its key are alike -/
theorem coherent_of_buckets (hbuckets : ∀ d ∈ cs.flatMap BucketChain.groups, ∀ e ∈ cs.flatMap BucketChain.groups,
    d.key = e.key → d.buckets = e.buckets) : o.Coherent := by
  constructor
  · intro t ht t' ht' hsame
    obtain ⟨x, hx, hmade, -⟩ := h.made ht
    obtain ⟨x', hx', hmade', -⟩ := h.made ht'
    obtain rfl : x = x' := Option.some.inj (hx ▸ hsame ▸ hx')
    simpa [interfaceGroup, descriptor] using hbuckets _ hmade _ hmade' rfl
  · intro t ht t' ht' hsame
    obtain ⟨x, hx, -, hmade⟩ := h.made ht
    obtain ⟨x', hx', -, hmade'⟩ := h.made ht'
    cases hy : o.hop? t with
    | none => rw [rewrite_of_no_hop hx hy, rewrite_of_no_hop hx' (hsame ▸ hy)]
    | some y =>
      have hlike := hbuckets _ (hmade y hy) _ (hmade' y (hsame ▸ hy)) rfl
      simp only [hopGroup, descriptor, List.cons.injEq, Bucket.mk.injEq, Treatment.mk.injEq, and_true] at hlike
      exact (List.append_inj' hlike (by simp)).1

variable (hsep : o.Separates device) (hhops : o.SeparatesHops device)
  (hvpns : (((cs.flatMap BucketChain.groups).filter Descriptor.isVpn).map (·.key)).Nodup)
include hsep hhops hvpns

theorem id_of_key {d e : Descriptor} (hd : d ∈ cs.flatMap BucketChain.groups) (he : e ∈ cs.flatMap BucketChain.groups)
    (hkey : d.key = e.key) : d.id = e.id ∧ d.kind = e.kind := by
  rcases h.cases_of_key hsep hhops hvpns hd he hkey with
    ⟨t, -, t', -, x, -, -, rfl, rfl⟩ | ⟨t, -, t', -, x, x', y, -, -, -, -, rfl, rfl⟩ | rfl
  · exact ⟨rfl, rfl⟩
  · exact ⟨rfl, rfl⟩
  · exact ⟨rfl, rfl⟩

/-- groups that are made under one key are one group, if the buckets that share it agree -/
theorem eq_of_key (hcoherent : o.Coherent) {d e : Descriptor} (hd : d ∈ cs.flatMap BucketChain.groups)
    (he : e ∈ cs.flatMap BucketChain.groups) (hkey : d.key = e.key) : d = e := by
  rcases h.cases_of_key hsep hhops hvpns hd he hkey with
    ⟨t, ht, t', ht', x, hx, hx', rfl, rfl⟩ | ⟨t, ht, t', ht', x, x', y, hx, hx', hy, hy', rfl, rfl⟩ | heq
  · rw [hcoherent.egress t ht t' ht' (hx.trans hx'.symm)]
  · have hrewrite := hcoherent.rewrite t ht t' ht' (hy.trans hy'.symm)
    rw [hrewrite, outlet_eq hx hx' hy hy' hrewrite]
  · exact heq

/-- no group is lost: if one is dropped, the one that is kept is the same -/
theorem planned_of_coherent (hcoherent : o.Coherent) {p : Plan} {crown : List Element} (hp : p.Assembles cs crown) :
    ∀ d ∈ cs.flatMap BucketChain.groups, d ∈ p.descriptors := by
  intro d hd
  obtain ⟨c, hc, hgroup⟩ := List.mem_flatMap.1 hd
  rcases List.mem_cons.1 hgroup with rfl | hgroup
  · obtain ⟨hsub, hall⟩ := Descriptor.mem_distinct (cs.map (·.inner))
    obtain ⟨e, he, hkey⟩ := hall c.inner (List.mem_map_of_mem hc)
    obtain ⟨c', hc', rfl⟩ := List.mem_map.1 (hsub e he)
    have hmade : c'.inner ∈ cs.flatMap BucketChain.groups := List.mem_flatMap.2 ⟨c', hc', List.mem_cons_self⟩
    rw [← h.eq_of_key hsep hhops hvpns hcoherent hmade hd hkey]
    exact List.mem_append_left _ (hp.initial ▸ he)
  · obtain ⟨e, he, rfl⟩ := List.mem_map.1 hgroup
    exact List.mem_append_right _ (List.mem_map_of_mem (hp.mem_elements.2 (.inl ⟨c, hc, he⟩)))

end Objective.RendersAll

/-! ## Whole objectives -/

namespace Planner

variable {planner : Planner} {o : Objective} {cs : List BucketChain}

/-- the VPN groups of an objective have different keys, as long as few buckets push a label -/
theorem nodup_vpns_of_chains (h : planner.chains o = .ok cs)
    (hlabels : o.treatments.countP (fun t => t.mplsPushes = 1) ≤ 2 ^ 12) :
    (((cs.flatMap BucketChain.groups).filter Descriptor.isVpn).map (·.key)).Nodup := by
  by_cases hk : o.kind = .hashed
  · have hnumbered := (o.numbered_vpnGroups planner.device o.treatments planner.vpnIndex).1
    have hfew := Nat.le_trans (o.length_vpnGroups_le planner.device o.treatments planner.vpnIndex) hlabels
    have hkeys := hnumbered.nodup_keys hfew
    rwa [Objective.vpnGroups, bucketGroups_of_chains hk h, List.map_map] at hkeys
  · rw [(makes_of_chains h).no_vpn hk]
    exact List.nodup_nil

end Planner

/-- **Groups that share a key.** Let the interface groups of different outlets of an objective have different keys, and
likewise the groups of different hops, and let no more than 2 ^ 12 buckets push a label. Of all groups that are made for
the buckets when the objective is built, those with one key have one id and one kind. They have the same buckets as
well, whichever they are, if and only if the buckets of the objective that leave through one outlet do the same there,
and those with one hop rewrite packets alike. In that case each group that is made is a group of the plan. -/
theorem shared_groups_agree {planner : Planner} {o : Objective} {p : Plan} (h : (planner.build o).1 = .ok p)
    (hsep : o.Separates planner.device) (hhops : o.SeparatesHops planner.device)
    (hlabels : o.treatments.countP (fun t => t.mplsPushes = 1) ≤ 2 ^ 12) :
    ∃ cs crown, planner.chains o = .ok cs ∧ p.Assembles cs crown ∧
      let made := cs.flatMap BucketChain.groups
      (∀ d ∈ made, ∀ e ∈ made, d.key = e.key → d.id = e.id ∧ d.kind = e.kind) ∧
        ((∀ d ∈ made, ∀ e ∈ made, d.key = e.key → d.buckets = e.buckets) ↔ o.Coherent) ∧
        (o.Coherent → ∀ d ∈ made, d ∈ p.descriptors) := by
  obtain ⟨cs, crown, hcs, ⟨hassembles, hmade⟩⟩ := Planner.composes_of_build h
  have hrenders : o.RendersAll planner.device o.treatments cs := hmade.imp fun _ _ => Objective.Makes.renders
  have hvpns := Planner.nodup_vpns_of_chains hcs hlabels
  refine ⟨cs, crown, hcs, hassembles, ?_, ⟨hrenders.coherent_of_buckets, ?_⟩, ?_⟩
  · exact fun d hd e he => hrenders.id_of_key hsep hhops hvpns hd he
  · intro hcoherent d hd e he hkey
    exact congrArg Descriptor.buckets (hrenders.eq_of_key hsep hhops hvpns hcoherent hd he hkey)
  · exact fun hcoherent => hrenders.planned_of_coherent hsep hhops hvpns hcoherent hassembles

/-- two buckets share an interface group and do the same there; all their groups are planned, and those of the third -/
theorem groups_of_carried_agree : ∃ p cs, ((Planner.fresh Sample.device).build Sample.carried).1 = .ok p ∧
    (Planner.fresh Sample.device).chains Sample.carried = .ok cs ∧
    ∀ d ∈ cs.flatMap BucketChain.groups, d ∈ p.descriptors := by
  obtain ⟨p, hp⟩ : ∃ p, ((Planner.fresh Sample.device).build Sample.carried).1 = .ok p := ⟨_, rfl⟩
  have hcoherent : Sample.carried.Coherent := ⟨by decide +kernel, by decide +kernel⟩
  obtain ⟨cs, crown, hcs, -, -, -, hplanned⟩ :=
    shared_groups_agree hp (by decide +kernel) (by decide +kernel) (by decide +kernel)
  exact ⟨p, cs, hp, hcs, hplanned hcoherent⟩

namespace Sample

/-- two next hops through one port in one VLAN, and only the second bucket pops a VLAN tag -/
def popped : Objective :=
  ⟨4, .hashed, [bucket ⟨10⟩, ⟨[.popVlan, .setEthDst dst', .setVlanId ⟨10⟩, .output ⟨7⟩]⟩], ⟨"sample"⟩, none⟩

end Sample

/-- **Groups lost under one key.** The first objective has two buckets that differ in their VLAN only: their L3 unicast
groups have one key and one id, and point to different interface groups. The second objective has two buckets of which
one pops a tag: their interface groups have one key, and the one that pops the tag is not in the plan. -/
theorem groups_lost_under_one_key :
    (∃ p cs, ((Planner.fresh Sample.device).build Sample.twoVlans).1 = .ok p ∧
      (Planner.fresh Sample.device).chains Sample.twoVlans = .ok cs ∧
      ∃ d ∈ cs.flatMap BucketChain.groups, ∃ e ∈ cs.flatMap BucketChain.groups,
        d.key = e.key ∧ d.id = e.id ∧ d.buckets ≠ e.buckets) ∧
    ∃ p cs, ((Planner.fresh Sample.device).build Sample.popped).1 = .ok p ∧
      (Planner.fresh Sample.device).chains Sample.popped = .ok cs ∧
      ∃ d ∈ cs.flatMap BucketChain.groups, d ∉ p.descriptors :=
  ⟨⟨_, _, rfl, rfl, by decide +kernel⟩, _, _, rfl, rfl, by decide +kernel⟩

end FlowGroups
