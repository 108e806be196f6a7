/-
What the planner promises of its plans. The groups of all plans stand in layers (`Key.level`), read off the first byte
of their keys: interface groups at the bottom, above them L3 unicast and MPLS interface groups, then VPN groups, and
the groups of whole objectives on top.

- `Plan.WellFormed`: an element waits only for groups of lower layers, and for each of them the plan has an initial
  group or an element that creates it.
- `Plan.Rooted`, for plans that install: the chains of the record run from the top-level group down, from each group to
  one that it waits for.
- `Plan.Complete`, for the same plans: every group but the top-level one is awaited by another.

All this is first said of the chain of one bucket (`BucketChain.Layered`), and then of the plans that are put together
from such chains (`Plan.Composes.wellFormed`, `rooted` and `complete`).
-/
import Mathlib.Data.List.Chain
import FlowGroups.Proofs.Chains
import FlowGroups.Proofs.Words

namespace FlowGroups

/-! ## Layers -/

namespace Key

/-- the layer of a group by the first byte of its key -/
def layer (n : Nat) : Nat := if n < 32 then 0 else if n < 64 ∨ n = 144 then 1 else if n = 146 then 2 else 3

def level (k : Key) : Nat :=
  match k.octets with
  | [] => 0
  | b :: _ => layer b.toNat

theorem level_ofWord (x : UInt32) : (ofWord x).level = layer (x.toNat / 2 ^ 24) := by
  have hx := x.toNat_lt
  have h : (x >>> 24).toUInt8.toNat = x.toNat / 2 ^ 24 := by
    rw [UInt32.toNat_toUInt8, Word.toNat_shiftRight_eq (j := 24) rfl]
    omega
  simp only [level, ofWord, Word.big32, h]

theorem level_l2Interface (device : DeviceId) (vlan : VlanId) (port : PortNumber) :
    (l2Interface device vlan port).level = 0 := by
  have hfield : ∀ y, (Tag.l2Interface ||| (Tag.belowType &&& y)).toNat < 2 ^ 28 := by
    intro y
    rw [Word.toNat_field (i := 28) (m := 0) (by decide) (by decide)]
    omega
  have hlow : (port.val &&& 0x3f).toUInt32.toNat < 2 ^ 28 := by
    have : port.val.toNat &&& (0x3f : UInt64).toNat ≤ 63 := Nat.and_le_right
    simp only [UInt64.toNat_toUInt32, UInt64.toNat_and]
    omega
  rw [l2Interface, level_ofWord, UInt32.toNat_or, layer, if_pos]
  exact Nat.div_lt_of_lt_mul ((Nat.or_lt_two_pow (hfield _) hlow).trans (by decide))

theorem level_l3Unicast (device : DeviceId) (src dst : MacAddress) (port : PortNumber) :
    (l3Unicast device src dst port).level = 1 := by
  rw [l3Unicast, level_ofWord, Word.toNat_field (i := 28) (m := 2) (by decide) (by decide), layer, if_neg (by omega),
    if_pos (by omega)]

theorem level_mplsInterface (device : DeviceId) (port : PortNumber) : (mplsInterface device port).level = 1 := by
  rw [mplsInterface, level_ofWord, Word.toNat_field (i := 24) (m := 144) (by decide) (by decide), layer,
    if_neg (by omega), if_pos (by omega)]

theorem level_mplsL3Vpn (objective index : UInt32) : (mplsL3Vpn objective index).level = 2 := by
  rw [mplsL3Vpn, level_ofWord, Word.toNat_field (i := 24) (m := 146) (by decide) (by decide), layer,
    if_neg (by omega), if_neg (by omega), if_pos (by omega)]

theorem level_l3Ecmp (objective : UInt32) : (l3Ecmp objective).level = 3 := by
  rw [l3Ecmp, GroupId.l3Ecmp, level_ofWord, Word.toNat_field (i := 28) (m := 7) (by decide) (by decide), layer,
    if_neg (by omega), if_neg (by omega), if_neg (by omega)]

theorem level_l2Flood (objective : UInt32) : (l2Flood objective).level = 3 := by
  rw [l2Flood, level_ofWord, Word.toNat_field (i := 28) (m := 4) (by decide) (by decide), layer, if_neg (by omega),
    if_neg (by omega), if_neg (by omega)]

end Key

/-! ## What holds of a plan -/

/-- does the element ask for the group under a key, rather than change the one that is there? -/
def Element.Creates (e : Element) (k : Key) : Prop := e.addBucket = false ∧ e.descriptor.key = k

namespace Plan

/-- is the group under a key one that the plan asks for? -/
def Creates (p : Plan) (k : Key) : Prop := (∃ d ∈ p.initial, d.key = k) ∨ ∃ e ∈ p.elements, e.Creates k

structure WellFormed (device : DeviceId) (p : Plan) : Prop where
  home : ∀ d ∈ p.descriptors, d.device = device
  distinct : ∀ e ∈ p.elements, e.waitOn.Nodup
  bottom : ∀ d ∈ p.initial, d.key.level = 0
  ranked : ∀ e ∈ p.elements, ∀ k ∈ e.waitOn, k.level < e.descriptor.key.level
  above : ∀ e ∈ p.elements, 0 < e.descriptor.key.level
  supplied : ∀ e ∈ p.elements, ∀ k ∈ e.waitOn, p.Creates k

/-- does some element create a group and wait for another? -/
def Links (es : List Element) (outer inner : Key) : Prop := ∃ e ∈ es, e.Creates outer ∧ inner ∈ e.waitOn

structure Rooted (p : Plan) : Prop where
  root : p.Creates p.topKey
  topped : ∀ chain ∈ p.record.chains, chain.head? = some p.topKey
  linked : ∀ chain ∈ p.record.chains, chain.IsChain (Links p.elements)

end Plan

/-! ## What holds of a chain -/

namespace Objective

theorem of_l2Interface {o : Objective} {device : DeviceId} {t : Treatment} {vlan? : Option VlanId} {d : Descriptor}
    {port : PortNumber} (h : o.l2Interface device t vlan? = .ok (d, port)) : d.device = device ∧ d.key.level = 0 := by
  unfold l2Interface at h
  dsimp only at h
  split at h <;> cases h
  exact ⟨rfl, Key.level_l2Interface _ _ _⟩

theorem of_pair {o : Objective} {device : DeviceId} {t : Treatment} {mpls : Bool} {p : Pair}
    (h : o.pair device t mpls = .ok p) :
    p.inner.device = device ∧ p.outer.device = device ∧ p.inner.key.level = 0 ∧ p.outer.key.level = 1 := by
  unfold pair at h
  dsimp only at h
  split at h <;> cases h
  refine ⟨rfl, rfl, Key.level_l2Interface _ _ _, ?_⟩
  cases mpls
  · exact Key.level_l3Unicast _ _ _ _
  · exact Key.level_mplsInterface _ _

end Objective

/-- the groups of a bucket lie in rising layers, and each of them waits for the one below it -/
structure BucketChain.Layered (device : DeviceId) (c : BucketChain) : Prop where
  home : ∀ d ∈ c.groups, d.device = device
  creates : ∀ e ∈ c.elements, e.addBucket = false
  distinct : ∀ e ∈ c.elements, e.waitOn.Nodup
  bottom : c.inner.key.level = 0
  above : ∀ e ∈ c.elements, 0 < e.descriptor.key.level
  low : ∀ d ∈ c.groups, d.key.level < 3
  ranked : ∀ e ∈ c.elements, ∀ k ∈ e.waitOn, k.level < e.descriptor.key.level
  supplied : ∀ e ∈ c.elements, ∀ k ∈ e.waitOn, ∃ d ∈ c.groups, d.key = k
  wanted : ∀ d ∈ c.groups, d.key = c.head.key ∨ ∃ e ∈ c.elements, d.key ∈ e.waitOn
  head : c.head ∈ c.groups
  topped : c.keys.head? = some c.head.key
  linked : c.keys.IsChain (Plan.Links c.elements)

theorem Objective.Makes.layered {o : Objective} {device : DeviceId} {t : Treatment} {c : BucketChain}
    (h : o.Makes device t c) : c.Layered device := by
  cases h with
  | group _ hmade =>
    obtain ⟨hdevice, hlevel⟩ := of_l2Interface hmade
    constructor <;> simp [BucketChain.ofGroup, BucketChain.groups, hdevice, hlevel]
  | pair _ _ hmade =>
    obtain ⟨hid, hod, hil, hol⟩ := of_pair hmade
    constructor <;>
      simp [BucketChain.ofPair, BucketChain.groups, hid, hod, hil, hol, Element.after, Element.Creates, Plan.Links,
        nodup_eraseDups]
  | label _ _ hmade =>
    obtain ⟨hid, hod, hil, hol⟩ := of_pair hmade
    constructor <;>
      simp [BucketChain.ofLabel, BucketChain.groups, hid, hod, hil, hol, Element.after, Element.Creates, Plan.Links,
        nodup_eraseDups, vpnGroup, descriptor, Key.level_mplsL3Vpn]

/-! ## Whole plans -/

theorem Objective.level_topKey (o : Objective) : o.topKey.level = 3 := by
  unfold topKey
  split
  · exact Key.level_l2Flood o.id
  · exact Key.level_l3Ecmp o.id

/-- the plan only creates groups, and all but the top-level one, which it names, are awaited by another -/
structure Plan.Complete (p : Plan) : Prop where
  creates : ∀ e ∈ p.elements, e.addBucket = false
  wanted : ∀ d ∈ p.descriptors, d.key = p.topKey ∨ ∃ e ∈ p.elements, d.key ∈ e.waitOn
  named : ∃ d ∈ p.descriptors, d.key = p.topKey ∧ d.id = p.topId

namespace Plan.Composes

variable {o : Objective} {device : DeviceId} {adds : Bool} {p : Plan} {cs : List BucketChain} {crown : List Element}

theorem layered (h : p.Composes o device adds cs crown) : ∀ c ∈ cs, c.Layered device := by
  intro c hc
  obtain ⟨t, -, hmakes⟩ := forall₂_exists_left h.made c hc
  exact hmakes.layered

theorem mem_elements (h : p.Composes o device adds cs crown) {e : Element} :
    e ∈ p.elements ↔ (∃ c ∈ cs, e ∈ c.elements) ∨ e ∈ crown := h.assembles.mem_elements

/-- each group of the plan is one of a chain, or the one on top -/
theorem cases_of_mem (h : p.Composes o device adds cs crown) {d : Descriptor} (hd : d ∈ p.descriptors) :
    (∃ c ∈ cs, d ∈ c.groups) ∨ ∃ e ∈ crown, e.descriptor = d := by
  rcases List.mem_append.1 hd with hd | hd
  · obtain ⟨c, hc, rfl⟩ := h.assembles.mem_initial hd
    exact .inl ⟨c, hc, List.mem_cons_self⟩
  · obtain ⟨e, he, rfl⟩ := List.mem_map.1 hd
    rcases h.mem_elements.1 he with ⟨c, hc, he⟩ | he
    · exact .inl ⟨c, hc, List.mem_cons_of_mem _ (List.mem_map_of_mem he)⟩
    · exact .inr ⟨e, he, rfl⟩

/-- there is a group for each key of a chain -/
theorem creates (h : p.Composes o device adds cs crown) {c : BucketChain} (hc : c ∈ cs) {d : Descriptor}
    (hd : d ∈ c.groups) : p.Creates d.key := by
  rcases List.mem_cons.1 hd with rfl | hd
  · exact .inl (h.assembles.exists_initial hc)
  · obtain ⟨e, he, rfl⟩ := List.mem_map.1 hd
    exact .inr ⟨e, h.mem_elements.2 (.inl ⟨c, hc, he⟩), (h.layered c hc).creates e he, rfl⟩

theorem level_top (h : p.Composes o device adds cs crown) {e : Element} (he : e ∈ crown) :
    e.descriptor.key.level = 3 := by
  rw [(h.top e he).2.2.1, o.level_topKey]

theorem wellFormed (h : p.Composes o device adds cs crown) : p.WellFormed device where
  home := by
    intro d hd
    rcases h.cases_of_mem hd with ⟨c, hc, hd⟩ | ⟨e, he, rfl⟩
    · exact (h.layered c hc).home d hd
    · exact (h.top e he).2.1
  distinct := by
    intro e he
    rcases h.mem_elements.1 he with ⟨c, hc, he⟩ | he
    · exact (h.layered c hc).distinct e he
    · exact (h.assembles.waits_of_mem_crown he).1
  bottom := by
    intro d hd
    obtain ⟨c, hc, rfl⟩ := h.assembles.mem_initial hd
    exact (h.layered c hc).bottom
  ranked := by
    intro e he k hk
    rcases h.mem_elements.1 he with ⟨c, hc, he⟩ | he
    · exact (h.layered c hc).ranked e he k hk
    · obtain ⟨c, hc, rfl⟩ := ((h.assembles.waits_of_mem_crown he).2.1 k).1 hk
      rw [h.level_top he]
      exact (h.layered c hc).low _ (h.layered c hc).head
  above := by
    intro e he
    rcases h.mem_elements.1 he with ⟨c, hc, he⟩ | he
    · exact (h.layered c hc).above e he
    · rw [h.level_top he]
      exact Nat.succ_pos 2
  supplied := by
    intro e he k hk
    rcases h.mem_elements.1 he with ⟨c, hc, he⟩ | he
    · obtain ⟨d, hd, rfl⟩ := (h.layered c hc).supplied e he k hk
      exact h.creates hc hd
    · obtain ⟨c, hc, rfl⟩ := ((h.assembles.waits_of_mem_crown he).2.1 k).1 hk
      exact h.creates hc (h.layered c hc).head

theorem topped (h : p.Composes o device adds cs crown) : ∀ chain ∈ p.record.chains, chain.head? = some p.topKey := by
  intro chain hchain
  rw [h.assembles.chains] at hchain
  obtain ⟨c, hc, rfl⟩ := List.mem_map.1 hchain
  rcases h.assembles.bare_or_top with ⟨rfl, htop⟩ | ⟨e, -, rfl, htop, -⟩
  · rw [← htop c hc]
    exact (h.layered c hc).topped
  · rw [← htop]
    rfl

theorem rooted (h : p.Composes o device false cs crown) : p.Rooted where
  root := by
    rcases h.assembles.bare_or_top with ⟨rfl, htop⟩ | ⟨e, he, rfl, htop, -⟩
    · obtain ⟨c, hc⟩ := List.exists_mem_of_ne_nil cs h.assembles.nonempty
      rw [← htop c hc]
      exact h.creates hc (h.layered c hc).head
    · exact .inr ⟨e, he, (h.top e List.mem_cons_self).1, htop⟩
  topped := h.topped
  linked := by
    intro chain hchain
    rw [h.assembles.chains] at hchain
    obtain ⟨c, hc, rfl⟩ := List.mem_map.1 hchain
    have hpile : c.keys.IsChain (Links p.elements) := by
      refine (h.layered c hc).linked.imp ?_
      rintro outer inner ⟨e, he, hlink⟩
      exact ⟨e, h.mem_elements.2 (.inl ⟨c, hc, he⟩), hlink⟩
    rcases h.assembles.bare_or_top with ⟨rfl, -⟩ | ⟨e, he, rfl, -, hheads⟩
    · exact hpile
    · refine hpile.cons fun k hk => ?_
      rw [(h.layered c hc).topped] at hk
      cases hk
      exact ⟨e, he, ⟨(h.top e List.mem_cons_self).1, rfl⟩, hheads c hc⟩

/-- every group of a chain is awaited, if not within the chain then by the group on top -/
theorem wanted (h : p.Composes o device adds cs crown) {c : BucketChain} (hc : c ∈ cs) {d : Descriptor}
    (hd : d ∈ c.groups) : d.key = p.topKey ∨ ∃ e ∈ p.elements, d.key ∈ e.waitOn := by
  rcases (h.layered c hc).wanted d hd with hhead | ⟨e, he, hwait⟩
  · rw [hhead]
    rcases h.assembles.bare_or_top with ⟨-, htop⟩ | ⟨e, he, -, -, hheads⟩
    · exact .inl (htop c hc)
    · exact .inr ⟨e, he, hheads c hc⟩
  · exact .inr ⟨e, h.mem_elements.2 (.inl ⟨c, hc, he⟩), hwait⟩

theorem complete (h : p.Composes o device false cs crown) : p.Complete where
  creates := by
    intro e he
    rcases h.mem_elements.1 he with ⟨c, hc, he⟩ | he
    · exact (h.layered c hc).creates e he
    · exact (h.top e he).1
  wanted := by
    intro d hd
    rcases h.cases_of_mem hd with ⟨c, hc, hd⟩ | ⟨e, he, rfl⟩
    · exact h.wanted hc hd
    · exact .inl (h.assembles.waits_of_mem_crown he).2.2.1
  named := by
    rcases h.assembles.bare_or_top with ⟨hbare, htop⟩ | ⟨e, he, rfl, htop, -⟩
    · obtain ⟨c, rfl, hid⟩ := h.single hbare
      refine ⟨c.head, ?_, htop c List.mem_cons_self, hid⟩
      rcases List.mem_cons.1 (h.layered c List.mem_cons_self).head with hhead | hhead
      · -- nothing is dropped from a list of one interface group
        rw [hhead, descriptors, h.assembles.initial]
        exact List.mem_append_left _ List.mem_cons_self
      · obtain ⟨e, he, hhead⟩ := List.mem_map.1 hhead
        rw [← hhead]
        have hmem : e ∈ p.elements := h.mem_elements.2 (.inl ⟨c, List.mem_cons_self, he⟩)
        exact List.mem_append_right _ (List.mem_map_of_mem hmem)
    · exact ⟨e.descriptor, List.mem_append_right _ (List.mem_map_of_mem he), htop, (h.top e List.mem_cons_self).2.2.2⟩

/-- a hashed or broadcast objective is known by the group on top -/
theorem topKey_eq (h : p.Composes o device adds cs crown) (hk : o.kind = .hashed ∨ o.kind = .broadcast) :
    p.topKey = o.topKey := by
  have hcrown : crown ≠ [] := by
    intro hbare
    rcases hk with hk | hk <;> simp [h.bare.1 hbare] at hk
  obtain ⟨e, he⟩ := List.exists_mem_of_ne_nil crown hcrown
  exact (h.assembles.waits_of_mem_crown he).2.2.1.symm.trans (h.top e he).2.2.1

end Plan.Composes

/-- **A plan that installs an objective is well-formed, and its chains hang from its top-level group.** -/
theorem Planner.sound_of_build {planner : Planner} {o : Objective} {p : Plan} (h : (planner.build o).1 = .ok p) :
    p.WellFormed planner.device ∧ p.Rooted := by
  obtain ⟨cs, crown, -, hcomposes⟩ := composes_of_build h
  exact ⟨hcomposes.wellFormed, hcomposes.rooted⟩

/-- **A plan that installs an objective has no group that nobody wants.** -/
theorem Planner.complete_of_build {planner : Planner} {o : Objective} {p : Plan} (h : (planner.build o).1 = .ok p) :
    p.Complete := by
  obtain ⟨cs, crown, -, hcomposes⟩ := composes_of_build h
  exact hcomposes.complete

/-! ## Where the top-level group lies -/

theorem Key.level_le (k : Key) : k.level ≤ 3 := by
  have hlayer : ∀ n, layer n ≤ 3 := by
    intro n
    unfold layer
    split_ifs <;> omega
  unfold level
  split
  · exact Nat.zero_le 3
  · exact hlayer _

/-- whatever is wanted by a group that lies no higher than the top-level one lies lower than this, from the top down -/
theorem Plan.Complete.level_le {device : DeviceId} {p : Plan} (h : p.Complete) (hp : p.WellFormed device)
    {d : Descriptor} (hd : d ∈ p.descriptors) : d.key.level ≤ p.topKey.level := by
  induction hn : 3 - d.key.level using Nat.strong_induction_on generalizing d with
  | _ n ih =>
    rcases h.wanted d hd with htop | ⟨e, he, hw⟩
    · exact Nat.le_of_eq (congrArg Key.level htop)
    · have hlt := hp.ranked e he d.key hw
      have hle := Key.level_le e.descriptor.key
      have htop := ih (3 - e.descriptor.key.level) (by omega)
        (List.mem_append_right _ (List.mem_map_of_mem he)) rfl
      omega

/-- no group lies on top of the top-level one -/
theorem Plan.Complete.topKey_not_mem {device : DeviceId} {p : Plan} (h : p.Complete) (hp : p.WellFormed device)
    {e : Element} (he : e ∈ p.elements) : p.topKey ∉ e.waitOn := by
  intro hw
  have hlt := hp.ranked e he p.topKey hw
  have hle := h.level_le hp (List.mem_append_right p.initial (List.mem_map_of_mem he))
  omega

/-- of descriptors with one key only the first is left -/
theorem Descriptor.nodup_distinct (ds : List Descriptor) : ((Descriptor.distinct ds).map (·.key)).Nodup := by
  unfold Descriptor.distinct
  induction ds using filter_induction fun d e : Descriptor => (e.key == d.key) = false with
  | nil => simp
  | cons d ds ih =>
    have hsub := (Descriptor.mem_distinct (ds.filter fun e => (e.key == d.key) = false)).1
    rw [List.eraseDupsBy_cons, List.map_cons, List.nodup_cons]
    refine ⟨fun hmem => ?_, ih⟩
    obtain ⟨e, he, hkey⟩ := List.mem_map.1 hmem
    have hne := (List.mem_filter.1 (hsub e he)).2
    simp [hkey] at hne

end FlowGroups
