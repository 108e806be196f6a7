/-
Plans as orders of dependency. What a plan asks for stands in a list, the initial groups first, and everything that a
group waits for stands before it.

- `plan_ordered`: each chain of the record leads from the top-level group down to the interface group of its bucket,
  along the edges of the plan, and no bucket of a group points to anything that the group has not waited for.

The chain of one bucket is a pile of groups (`Piled`), each of which knows the one below it and no other. A plan puts
such piles side by side, and at most one group on top of all of them (`Plan.Assembles`). Of the interface groups at the
bottom only one is kept for each key: hence the condition that different outlets have different keys.
-/
import Mathlib.Data.List.Forall2
import FlowGroups.Proofs.Run

namespace FlowGroups

/-! ## Where packets leave -/

/-- an interface group is for one VLAN on one port -/
structure Outlet where
  vlan : VlanId
  port : PortNumber
deriving DecidableEq, Repr

namespace Outlet

def key (device : DeviceId) (x : Outlet) : Key := Key.l2Interface device x.vlan x.port

def groupId (x : Outlet) : GroupId := GroupId.l2Interface x.vlan x.port

end Outlet

namespace Objective

/-- where the packets of a bucket leave; of several ports it is the last -/
def outlet? (o : Objective) (t : Treatment) : Option Outlet :=
  match o.outletVlan? t, (Egress.ofTreatment t).port? with
  | some vlan, some port => some ⟨vlan, port⟩
  | _, _ => none

def outlets (o : Objective) : List Outlet := o.treatments.filterMap o.outlet?

/-- no two outlets of the objective have interface groups under one key -/
def Separates (o : Objective) (device : DeviceId) : Prop :=
  ∀ x ∈ o.outlets, ∀ y ∈ o.outlets, x.key device = y.key device → x = y

instance (o : Objective) (device : DeviceId) : Decidable (o.Separates device) :=
  inferInstanceAs (Decidable (∀ x ∈ o.outlets, ∀ y ∈ o.outlets, x.key device = y.key device → x = y))

theorem outlet?_eq_some {o : Objective} {t : Treatment} {vlan : VlanId} {port : PortNumber}
    (hvlan : o.outletVlan? t = some vlan) (hport : (Egress.ofTreatment t).port? = some port) :
    o.outlet? t = some ⟨vlan, port⟩ := by
  rw [outlet?, hvlan, hport]

end Objective

/-! ## What a group points to -/

/-- does a bucket of the group hand packets on to another group? -/
def Descriptor.Points (d : Descriptor) (id : GroupId) : Prop :=
  ∃ b ∈ d.buckets, .group id ∈ b.treatment.instructions

/-- the interface group of an outlet, as to its names -/
structure Descriptor.Serves (device : DeviceId) (x : Outlet) (d : Descriptor) : Prop where
  key : d.key = x.key device
  id : d.id = x.groupId

theorem Descriptor.points_toGroup {d : Descriptor} {cs : List BucketChain} {id : GroupId}
    (hd : d.buckets = cs.map (Bucket.toGroup ·.head.id)) : d.Points id ↔ ∃ c ∈ cs, c.head.id = id := by
  simp [Points, hd, Bucket.toGroup, eq_comm]

namespace Split

@[simp] theorem port_withHint (s : Split) (hint? : Option VlanId) : (s.withHint hint?).port? = s.port? := by
  unfold withHint
  split <;> rfl

@[simp] theorem port_untagged (s : Split) : s.untagged.port? = s.port? := by
  unfold untagged
  split <;> rfl

@[simp] theorem outer_untagged (s : Split) : s.untagged.outer = s.outer := by
  unfold untagged
  split <;> rfl

/-- both ways to read a treatment come to the same port -/
theorem port_ofTreatment (t : Treatment) (hint? : Option VlanId) :
    (ofTreatment t hint?).port? = (Egress.ofTreatment t).port? := by
  have hfold : ∀ (is : List Instruction) (s : Split) (e : Egress), s.port? = e.port? →
      (is.foldl step s).port? = (is.foldl Egress.step e).port? := by
    intro is
    induction is with
    | nil => exact fun _ _ h => h
    | cons i is ih =>
      intro s e h
      apply ih
      cases i <;> simp [step, Egress.step, h]
  simp only [ofTreatment, port_untagged, port_withHint]
  exact hfold _ _ _ rfl

/-- groups that a treatment names are not taken over -/
theorem group_not_mem_outer (t : Treatment) (hint? : Option VlanId) (id : GroupId) :
    .group id ∉ (ofTreatment t hint?).outer := by
  have hread : .group id ∉ (t.instructions.foldl step start).outer := by
    refine List.foldlRecOn (motive := fun s => .group id ∉ s.outer) t.instructions step ?_ ?_
    · exact List.not_mem_nil
    intro s h i _
    cases i <;> simp [step, h]
  rw [ofTreatment, outer_untagged]
  unfold withHint
  split
  · simpa using hread
  · exact hread

end Split

namespace Objective

theorem serves_of_l2Interface {o : Objective} {device : DeviceId} {t : Treatment} {vlan? : Option VlanId}
    {d : Descriptor} {port : PortNumber} (h : o.l2Interface device t vlan? = .ok (d, port)) :
    ∃ vlan, vlan? = some vlan ∧ (Egress.ofTreatment t).port? = some port ∧ d.Serves device ⟨vlan, port⟩ := by
  unfold l2Interface at h
  dsimp only at h
  split at h <;> cases h
  rename_i vlan hport
  exact ⟨vlan, rfl, hport, rfl, rfl⟩

theorem serves_of_pair {o : Objective} {device : DeviceId} {t : Treatment} {mpls : Bool} {p : Pair}
    (h : o.pair device t mpls = .ok p) :
    (∃ vlan port, (Split.ofTreatment t o.hintedVlan?).vlan? = some vlan ∧
      (Egress.ofTreatment t).port? = some port ∧ p.inner.Serves device ⟨vlan, port⟩) ∧
      ∀ id, p.outer.Points id → id = p.inner.id := by
  unfold pair at h
  dsimp only at h
  split at h <;> cases h
  rename_i vlan port hvlan hport
  rw [Split.port_ofTreatment] at hport
  refine ⟨⟨vlan, port, hvlan, hport, rfl, rfl⟩, ?_⟩
  intro id hid
  simpa [Descriptor.Points, descriptor, Split.group_not_mem_outer] using hid

end Objective

/-! ## Elements one after the other -/

/-- each element waits for known keys only, and its own key is known from then on -/
def Follows : List Key → List Element → Prop
  | _, [] => True
  | known, e :: es => (∀ k ∈ e.waitOn, k ∈ known) ∧ Follows (known ++ [e.descriptor.key]) es

namespace Follows

theorem mono {ks js : List Key} {es : List Element} (h : Follows ks es) (hsub : ∀ k ∈ ks, k ∈ js) : Follows js es := by
  induction es generalizing ks js with
  | nil => trivial
  | cons e es ih =>
    refine ⟨fun k hk => hsub k (h.1 k hk), ih h.2 fun k hk => ?_⟩
    exact List.mem_append.2 ((List.mem_append.1 hk).imp_left (hsub k))

theorem append_iff {ks : List Key} {es fs : List Element} :
    Follows ks (es ++ fs) ↔ Follows ks es ∧ Follows (ks ++ es.map (·.descriptor.key)) fs := by
  induction es generalizing ks with
  | nil => simp [Follows]
  | cons e es ih => simp [Follows, ih, and_assoc]

theorem of_split {ks : List Key} {before after : List Element} {e : Element}
    (h : Follows ks (before ++ e :: after)) : ∀ k ∈ e.waitOn, k ∈ ks ++ before.map (·.descriptor.key) :=
  (append_iff.1 h).2.1

end Follows

/-! ## Piles of groups -/

/-- each group waits for the one below it and for no other, and hands packets on to no other -/
def Piled : Descriptor → List Element → Prop
  | _, [] => True
  | below, e :: es =>
    e.waitOn = [below.key] ∧ (∀ id, e.descriptor.Points id → id = below.id) ∧ Piled e.descriptor es

namespace Piled

variable {below : Descriptor} {es : List Element}

theorem follows (h : Piled below es) : Follows [below.key] es := by
  induction es generalizing below with
  | nil => trivial
  | cons e es ih =>
    refine ⟨fun k hk => by rwa [h.1] at hk, (ih h.2.2).mono fun k hk => ?_⟩
    exact List.mem_append_right _ hk

/-- every group stands on one of the pile -/
theorem stands {e : Element} (h : Piled below es) (he : e ∈ es) :
    ∃ d ∈ below :: es.map (·.descriptor), e.waitOn = [d.key] ∧ ∀ id, e.descriptor.Points id → id = d.id := by
  induction es generalizing below with
  | nil => cases he
  | cons f es ih =>
    obtain ⟨hwait, hpoints, hrest⟩ := h
    rcases List.mem_cons.1 he with rfl | he
    · exact ⟨below, List.mem_cons_self, hwait, hpoints⟩
    · obtain ⟨d, hd, hstands⟩ := ih hrest he
      exact ⟨d, List.mem_cons_of_mem below hd, hstands⟩

theorem linked (h : Piled below es) : ((below :: es.map (·.descriptor)).map (·.key)).IsChain fun inner outer =>
    ∃ e ∈ es, inner ∈ e.waitOn ∧ e.descriptor.key = outer := by
  induction es generalizing below with
  | nil => exact .singleton _
  | cons e es ih =>
    obtain ⟨hwait, -, hrest⟩ := h
    have hlater : ∀ inner outer, (∃ f ∈ es, inner ∈ f.waitOn ∧ f.descriptor.key = outer) →
        ∃ f ∈ e :: es, inner ∈ f.waitOn ∧ f.descriptor.key = outer := fun _ _ ⟨f, hf, hlink⟩ =>
      ⟨f, List.mem_cons_of_mem e hf, hlink⟩
    refine .cons_cons ⟨e, List.mem_cons_self, ?_, rfl⟩ ((ih hrest).imp hlater)
    rw [hwait]
    exact List.mem_singleton.2 rfl

end Piled

namespace BucketChain

/-- the chain of a bucket is a pile of groups on top of the interface group of an outlet -/
structure Stacks (device : DeviceId) (x : Outlet) (c : BucketChain) : Prop where
  base : c.inner.Serves device x
  piled : Piled c.inner c.elements
  keys : c.keys = (c.groups.map (·.key)).reverse
  head : c.groups.getLast? = some c.head

namespace Stacks

variable {device : DeviceId} {x : Outlet} {c : BucketChain}

theorem mem_keys (h : c.Stacks device x) {k : Key} : k ∈ c.keys ↔ ∃ d ∈ c.groups, d.key = k := by
  rw [h.keys, List.mem_reverse, List.mem_map]

theorem head_mem (h : c.Stacks device x) : c.head ∈ c.groups := List.mem_of_getLast? h.head

theorem head?_keys (h : c.Stacks device x) : c.keys.head? = some c.head.key := by
  rw [h.keys, List.head?_reverse, List.getLast?_map, h.head, Option.map_some]

theorem getLast?_keys (h : c.Stacks device x) : c.keys.getLast? = some c.inner.key := by
  rw [h.keys, List.getLast?_reverse]
  rfl

theorem linked (h : c.Stacks device x) :
    c.keys.IsChain fun outer inner => ∃ e ∈ c.elements, inner ∈ e.waitOn ∧ e.descriptor.key = outer := by
  rw [h.keys, List.isChain_reverse]
  exact h.piled.linked

end Stacks

end BucketChain

/-- whichever way the chain of a bucket is made, it is such a pile -/
theorem Objective.Makes.stacks {o : Objective} {device : DeviceId} {t : Treatment} {c : BucketChain}
    (h : o.Makes device t c) : ∃ x, o.outlet? t = some x ∧ c.Stacks device x := by
  cases h with
  | group _ hmade =>
    obtain ⟨vlan, hvlan, hport, hserves⟩ := serves_of_l2Interface hmade
    exact ⟨_, outlet?_eq_some hvlan hport, hserves, trivial, rfl, rfl⟩
  | pair hstacked _ hmade =>
    obtain ⟨⟨vlan, port, hvlan, hport, hserves⟩, hpoints⟩ := serves_of_pair hmade
    rw [← outletVlan_of_stacked hstacked] at hvlan
    exact ⟨_, outlet?_eq_some hvlan hport, hserves, ⟨rfl, hpoints, trivial⟩, rfl, rfl⟩
  | label hkind _ hmade =>
    obtain ⟨⟨vlan, port, hvlan, hport, hserves⟩, hpoints⟩ := serves_of_pair hmade
    rw [← outletVlan_of_stacked (by simp [stacked, hkind])] at hvlan
    refine ⟨_, outlet?_eq_some hvlan hport, hserves, ⟨rfl, hpoints, rfl, ?_, trivial⟩, rfl, rfl⟩
    intro id hid
    simpa [Descriptor.Points, vpnGroup, descriptor, vpnTreatment, Element.after] using hid

/-! ## From buckets to chains -/

/-- each bucket has a chain that leads to its outlet -/
abbrev Objective.Reaches (o : Objective) (device : DeviceId) : List Treatment → List BucketChain → Prop :=
  List.Forall₂ fun t c => ∃ x, o.outlet? t = some x ∧ c.Stacks device x

theorem Objective.Reaches.mem {o : Objective} {device : DeviceId} {cs : List BucketChain}
    (h : o.Reaches device o.treatments cs) : ∀ c ∈ cs, ∃ x ∈ o.outlets, c.Stacks device x := by
  intro c hc
  obtain ⟨t, ht, x, hx, hstacks⟩ := forall₂_exists_left h c hc
  exact ⟨x, List.mem_filterMap.2 ⟨t, ht, hx⟩, hstacks⟩

/-- the chains can be created one after the other once all groups at the bottom exist -/
theorem follows_piles {cs : List BucketChain} {ks : List Key}
    (h : ∀ c ∈ cs, c.inner.key ∈ ks ∧ Piled c.inner c.elements) : Follows ks (cs.flatMap (·.elements)) := by
  induction cs generalizing ks with
  | nil => trivial
  | cons c cs ih =>
    obtain ⟨hinner, hpiled⟩ := h c List.mem_cons_self
    rw [List.flatMap_cons, Follows.append_iff]
    constructor
    · apply hpiled.follows.mono
      simpa using hinner
    · apply ih
      intro c' hc'
      obtain ⟨hinner', hpiled'⟩ := h c' (List.mem_cons_of_mem c hc')
      exact ⟨List.mem_append_left _ hinner', hpiled'⟩

/-! ## Whole plans -/

/-- The plan is an order in which its groups can be created, and its record says what leads where. -/
structure Plan.Ordered (o : Objective) (device : DeviceId) (p : Plan) : Prop where
  /-- every group but the initial ones waits for another -/
  waits : ∀ e ∈ p.elements, e.waitOn ≠ []
  /-- no key is waited for twice -/
  distinct : ∀ e ∈ p.elements, e.waitOn.Nodup
  /-- what an element waits for stands before it -/
  earlier : ∀ before e after, p.elements = before ++ e :: after →
    ∀ k ∈ e.waitOn, ∃ d ∈ p.initial ++ before.map (·.descriptor), d.key = k
  /-- there is one chain for each bucket, in their order, and it leads to where the packets of the bucket leave -/
  buckets : List.Forall₂ (fun t chain => ∃ x, o.outlet? t = some x ∧ chain.getLast? = some (x.key device))
    o.treatments p.record.chains
  topped : ∀ chain ∈ p.record.chains, chain.head? = some p.topKey
  grounded : ∀ chain ∈ p.record.chains, ∃ d ∈ p.initial, chain.getLast? = some d.key
  linked : ∀ chain ∈ p.record.chains, chain.IsChain fun outer inner => (inner, outer) ∈ p.edges
  /-- the chains name the groups of the plan and no others -/
  named : ∀ k, (∃ chain ∈ p.record.chains, k ∈ chain) ↔ ∃ d ∈ p.descriptors, d.key = k
  /-- an element only points to groups of the plan that it has waited for -/
  pointed : ∀ e ∈ p.elements, ∀ id, e.descriptor.Points id → ∃ d ∈ p.descriptors, d.id = id ∧ d.key ∈ e.waitOn

namespace Plan

theorem mem_edges {p : Plan} {inner outer : Key} :
    (inner, outer) ∈ p.edges ↔ ∃ e ∈ p.elements, inner ∈ e.waitOn ∧ e.descriptor.key = outer := by
  simp [edges]

namespace Assembles

variable {o : Objective} {device : DeviceId} {p : Plan} {cs : List BucketChain} {crown : List Element}

/-- of interface groups with one key the one that is kept has the same id as the others -/
theorem kept (h : p.Assembles cs crown) (hsep : o.Separates device) (hcs : o.Reaches device o.treatments cs) :
    ∀ c ∈ cs, ∃ d ∈ p.initial, d.key = c.inner.key ∧ d.id = c.inner.id := by
  intro c hc
  obtain ⟨hsub, hall⟩ := Descriptor.mem_distinct (cs.map (·.inner))
  obtain ⟨d, hd, hkey⟩ := hall c.inner (List.mem_map_of_mem hc)
  obtain ⟨c', hc', rfl⟩ := List.mem_map.1 (hsub d hd)
  obtain ⟨x, hx, hstacks⟩ := hcs.mem c hc
  obtain ⟨x', hx', hstacks'⟩ := hcs.mem c' hc'
  have hsame : x' = x := by
    apply hsep x' hx' x hx
    rw [← hstacks.base.key, ← hstacks'.base.key, hkey]
  rw [← h.initial] at hd
  exact ⟨c'.inner, hd, hkey, by rw [hstacks.base.id, hstacks'.base.id, hsame]⟩

theorem covers (h : p.Assembles cs crown) (hsep : o.Separates device) (hcs : o.Reaches device o.treatments cs) :
    ∀ c ∈ cs, ∀ d ∈ c.groups, ∃ d' ∈ p.descriptors, d'.key = d.key ∧ d'.id = d.id := by
  intro c hc d hd
  rcases List.mem_cons.1 hd with rfl | hd
  · obtain ⟨d', hd', hsame⟩ := h.kept hsep hcs c hc
    exact ⟨d', List.mem_append_left _ hd', hsame⟩
  · obtain ⟨e, he, rfl⟩ := List.mem_map.1 hd
    have hmem : e ∈ p.elements := h.mem_elements.2 (.inl ⟨c, hc, he⟩)
    exact ⟨e.descriptor, List.mem_append_right _ (List.mem_map_of_mem hmem), rfl, rfl⟩

/-- the group on top, if there is one, only points to heads of chains -/
theorem head_of_points (h : p.Assembles cs crown) {e : Element} (he : e ∈ crown) {id : GroupId}
    (hid : e.descriptor.Points id) : ∃ c ∈ cs, c.head.id = id :=
  (Descriptor.points_toGroup (h.waits_of_mem_crown he).2.2.2).1 hid

theorem follows (h : p.Assembles cs crown) (hcs : o.Reaches device o.treatments cs) :
    Follows (p.initial.map (·.key)) p.elements := by
  have hinner : ∀ c ∈ cs, c.inner.key ∈ p.initial.map (·.key) := by
    intro c hc
    obtain ⟨d, hd, hkey⟩ := (Descriptor.mem_distinct (cs.map (·.inner))).2 c.inner (List.mem_map_of_mem hc)
    exact List.mem_map.2 ⟨d, h.initial ▸ hd, hkey⟩
  have hheads : ∀ c ∈ cs, c.head.key ∈ p.initial.map (·.key) ++ (cs.flatMap (·.elements)).map (·.descriptor.key) := by
    intro c hc
    obtain ⟨x, -, hstacks⟩ := hcs.mem c hc
    rcases List.mem_cons.1 hstacks.head_mem with hhead | hhead
    · rw [hhead]
      exact List.mem_append_left _ (hinner c hc)
    · obtain ⟨e, he, hdesc⟩ := List.mem_map.1 hhead
      rw [← hdesc]
      exact List.mem_append_right _ (List.mem_map_of_mem (List.mem_flatMap.2 ⟨c, hc, he⟩))
  rw [h.elements, Follows.append_iff]
  refine ⟨follows_piles fun c hc => ⟨hinner c hc, (hcs.mem c hc).elim fun x hx => hx.2.piled⟩, ?_⟩
  rcases h.crowned with ⟨rfl, -⟩ | ⟨top, b, rfl, -, -⟩
  · trivial
  · refine ⟨?_, trivial⟩
    intro k hk
    obtain ⟨c, hc, rfl⟩ := List.mem_map.1 (Element.mem_after.1 hk)
    exact hheads c hc

theorem linked (h : p.Assembles cs crown) (hcs : o.Reaches device o.treatments cs) :
    ∀ chain ∈ p.record.chains, chain.IsChain fun outer inner => (inner, outer) ∈ p.edges := by
  intro chain hchain
  rw [h.chains] at hchain
  obtain ⟨c, hc, rfl⟩ := List.mem_map.1 hchain
  obtain ⟨x, -, hstacks⟩ := hcs.mem c hc
  have hpile : c.keys.IsChain fun outer inner => (inner, outer) ∈ p.edges := by
    apply hstacks.linked.imp
    rintro outer inner ⟨e, he, hlink⟩
    exact mem_edges.2 ⟨e, h.mem_elements.2 (.inl ⟨c, hc, he⟩), hlink⟩
  rcases h.crowned with ⟨rfl, -⟩ | ⟨top, b, hcrown, -, -⟩
  · exact hpile
  · have htop : .after top (cs.map (·.head.key)) b ∈ p.elements := by
      rw [h.mem_elements, hcrown]
      exact .inr (List.mem_singleton.2 rfl)
    rw [hcrown]
    refine hpile.cons ?_
    intro k hk
    rw [hstacks.head?_keys] at hk
    cases hk
    exact mem_edges.2 ⟨_, htop, Element.mem_after.2 (List.mem_map_of_mem hc), rfl⟩

theorem named (h : p.Assembles cs crown) (hsep : o.Separates device) (hcs : o.Reaches device o.treatments cs) (k : Key) :
    (∃ chain ∈ p.record.chains, k ∈ chain) ↔ ∃ d ∈ p.descriptors, d.key = k := by
  rw [h.chains]
  constructor
  · rintro ⟨chain, hchain, hk⟩
    obtain ⟨c, hc, rfl⟩ := List.mem_map.1 hchain
    rcases List.mem_append.1 hk with hk | hk
    · obtain ⟨e, he, rfl⟩ := List.mem_map.1 hk
      have hmem : e ∈ p.elements := h.mem_elements.2 (.inr he)
      exact ⟨e.descriptor, List.mem_append_right _ (List.mem_map_of_mem hmem), rfl⟩
    · obtain ⟨x, -, hstacks⟩ := hcs.mem c hc
      obtain ⟨d, hd, rfl⟩ := hstacks.mem_keys.1 hk
      obtain ⟨d', hd', hkey, -⟩ := h.covers hsep hcs c hc d hd
      exact ⟨d', hd', hkey⟩
  · rintro ⟨d, hd, rfl⟩
    have hpile : ∀ c ∈ cs, d ∈ c.groups →
        ∃ chain ∈ cs.map (fun c => crown.map (·.descriptor.key) ++ c.keys), d.key ∈ chain := by
      intro c hc hgroup
      obtain ⟨x, -, hstacks⟩ := hcs.mem c hc
      exact ⟨_, List.mem_map_of_mem hc, List.mem_append_right _ (hstacks.mem_keys.2 ⟨d, hgroup, rfl⟩)⟩
    rcases List.mem_append.1 hd with hd | hd
    · rw [h.initial] at hd
      obtain ⟨c, hc, rfl⟩ := List.mem_map.1 ((Descriptor.mem_distinct _).1 d hd)
      exact hpile c hc List.mem_cons_self
    · obtain ⟨e, he, rfl⟩ := List.mem_map.1 hd
      rcases h.mem_elements.1 he with ⟨c, hc, he⟩ | he
      · exact hpile c hc (List.mem_cons_of_mem _ (List.mem_map_of_mem he))
      · obtain ⟨c, hc⟩ := List.exists_mem_of_ne_nil cs h.nonempty
        exact ⟨_, List.mem_map_of_mem hc, List.mem_append_left _ (List.mem_map_of_mem he)⟩

theorem pointed (h : p.Assembles cs crown) (hsep : o.Separates device) (hcs : o.Reaches device o.treatments cs) :
    ∀ e ∈ p.elements, ∀ id, e.descriptor.Points id → ∃ d ∈ p.descriptors, d.id = id ∧ d.key ∈ e.waitOn := by
  intro e he id hid
  rcases h.mem_elements.1 he with ⟨c, hc, he⟩ | he
  · obtain ⟨x, -, hstacks⟩ := hcs.mem c hc
    obtain ⟨d, hd, hwait, hpoints⟩ := hstacks.piled.stands he
    obtain ⟨d', hd', hkey, hsame⟩ := h.covers hsep hcs c hc d hd
    refine ⟨d', hd', hsame.trans (hpoints id hid).symm, ?_⟩
    rw [hwait, hkey]
    exact List.mem_singleton.2 rfl
  · obtain ⟨-, hwait, -⟩ := h.waits_of_mem_crown he
    obtain ⟨c, hc, rfl⟩ := h.head_of_points he hid
    obtain ⟨x, -, hstacks⟩ := hcs.mem c hc
    obtain ⟨d', hd', hkey, hsame⟩ := h.covers hsep hcs c hc c.head hstacks.head_mem
    exact ⟨d', hd', hsame, (hwait _).2 ⟨c, hc, hkey.symm⟩⟩

theorem ordered (h : p.Assembles cs crown) (hsep : o.Separates device) (hcs : o.Reaches device o.treatments cs) :
    p.Ordered o device where
  waits := by
    intro e he
    rcases h.mem_elements.1 he with ⟨c, hc, he⟩ | he
    · obtain ⟨x, -, hstacks⟩ := hcs.mem c hc
      obtain ⟨d, -, hwait, -⟩ := hstacks.piled.stands he
      rw [hwait]
      exact List.cons_ne_nil _ _
    · obtain ⟨c, hc⟩ := List.exists_mem_of_ne_nil cs h.nonempty
      exact List.ne_nil_of_mem (((h.waits_of_mem_crown he).2.1 _).2 ⟨c, hc, rfl⟩)
  distinct := by
    intro e he
    rcases h.mem_elements.1 he with ⟨c, hc, he⟩ | he
    · obtain ⟨x, -, hstacks⟩ := hcs.mem c hc
      obtain ⟨d, -, hwait, -⟩ := hstacks.piled.stands he
      rw [hwait]
      exact List.nodup_singleton _
    · exact (h.waits_of_mem_crown he).1
  earlier := by
    intro before e after hsplit k hk
    have hfollows := h.follows hcs
    rw [hsplit] at hfollows
    simpa [or_and_right, exists_or] using hfollows.of_split k hk
  buckets := by
    rw [h.chains, List.forall₂_map_right_iff]
    apply hcs.imp
    rintro t c ⟨x, hx, hstacks⟩
    refine ⟨x, hx, ?_⟩
    rw [List.getLast?_append, hstacks.getLast?_keys, hstacks.base.key]
    rfl
  topped := by
    intro chain hchain
    rw [h.chains] at hchain
    obtain ⟨c, hc, rfl⟩ := List.mem_map.1 hchain
    obtain ⟨x, -, hstacks⟩ := hcs.mem c hc
    rcases h.crowned with ⟨rfl, htop⟩ | ⟨top, b, rfl, htop, -⟩
    · rw [← htop c hc]
      exact hstacks.head?_keys
    · rw [← htop]
      rfl
  grounded := by
    intro chain hchain
    rw [h.chains] at hchain
    obtain ⟨c, hc, rfl⟩ := List.mem_map.1 hchain
    obtain ⟨x, -, hstacks⟩ := hcs.mem c hc
    obtain ⟨d, hd, hkey, -⟩ := h.kept hsep hcs c hc
    refine ⟨d, hd, ?_⟩
    rw [List.getLast?_append, hstacks.getLast?_keys, hkey]
    rfl
  linked := h.linked hcs
  named := h.named hsep hcs
  pointed := h.pointed hsep hcs

end Assembles

end Plan

theorem Plan.Composes.ordered {o : Objective} {device : DeviceId} {adds : Bool} {p : Plan} {cs : List BucketChain}
    {crown : List Element} (h : p.Composes o device adds cs crown) (hsep : o.Separates device) : p.Ordered o device :=
  h.assembles.ordered hsep (h.made.imp fun _ _ => Objective.Makes.stacks)

/-- **Plans are orders of dependency.** Let the interface groups of different outlets of an objective have different
keys. Then a plan that installs it, or adds a bucket to it, can be carried out from the first group to the last: each
element waits for something, and everything it waits for stands before it. For each bucket there is one chain, in the
order of the buckets, from the top-level group to the interface group of the bucket, which is an initial group; each
step of it is an edge of the plan, and the chains name the groups of the plan and no others. Whatever group a bucket of
an element points to is one that the element waits for. -/
theorem plan_ordered {planner : Planner} {o : Objective} {p : Plan}
    (h : (planner.build o).1 = .ok p ∨ (planner.buildAddBucket o).1 = .ok p) (hsep : o.Separates planner.device) :
    p.Ordered o planner.device := by
  rcases h with hbuild | hadd
  · obtain ⟨cs, crown, -, hcomposes⟩ := Planner.composes_of_build hbuild
    exact hcomposes.ordered hsep
  · obtain ⟨-, cs, crown, -, hcomposes⟩ := Planner.composes_of_buildAddBucket hadd
    exact hcomposes.ordered hsep

namespace Sample

/-- Three buckets: the first two differ in the next hop and leave through one interface group, the third one is carried
by a label on another port. -/
def carried : Objective :=
  ⟨6, .hashed,
    [bucket ⟨10⟩, ⟨[.setEthSrc dst, .setVlanId ⟨10⟩, .output ⟨7⟩]⟩,
      ⟨[.setVlanId ⟨20⟩, .pushMpls, .setMplsLabel ⟨100⟩, .output ⟨8⟩]⟩],
    ⟨"sample"⟩, none⟩

end Sample

/-- two interface groups for three buckets, and five groups on top of them -/
theorem plan_ordered_of_carried : ∃ p, ((Planner.fresh Sample.device).build Sample.carried).1 = .ok p ∧
    p.initial.length = 2 ∧ p.elements.length = 5 ∧ p.Ordered Sample.carried Sample.device := by
  have hsep : Sample.carried.Separates Sample.device := by decide +kernel
  have hsize : ((Planner.fresh Sample.device).build Sample.carried).1.map
      (fun p => (p.initial.length, p.elements.length)) = .ok (2, 5) := by decide +kernel
  cases hbuild : ((Planner.fresh Sample.device).build Sample.carried).1 with
  | error e =>
    rw [hbuild] at hsize
    cases hsize
  | ok p =>
    rw [hbuild] at hsize
    obtain ⟨hinitial, helements⟩ := Prod.mk.inj (Except.ok.inj hsize)
    exact ⟨p, rfl, hinitial, helements, plan_ordered (.inl hbuild) hsep⟩

end FlowGroups
