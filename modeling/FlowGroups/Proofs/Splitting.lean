/-
How a treatment is divided between two groups. The outer group sets addresses and the VLAN and hands packets on to the
inner one, which pops the VLAN and outputs. The inner group is named after a VLAN and a port that are noted on the way,
apart from the instructions themselves.

- `Split.reads_foldl`: instructions are read one by one, and each part keeps its own in their order.
- `treatment_is_divided`: what both buckets hold, instruction by instruction; and the VLAN and the port that the inner
  group is named after are the last ones that these buckets set and output to.
-/
import FlowGroups.Proofs.Merging

namespace FlowGroups

/-! ## Kinds of instructions -/

namespace Instruction

/-- is the instruction carried out in the outer group? -/
def isOuter : Instruction → Bool
  | .setEthSrc _ | .setEthDst _ | .setVlanId _ => true
  | _ => false

/-- is it carried out in the inner group? -/
def isInner : Instruction → Bool
  | .popVlan | .output _ => true
  | _ => false

def port? : Instruction → Option PortNumber
  | .output port => some port
  | _ => none

def group? : Instruction → Option GroupId
  | .group id => some id
  | _ => none

end Instruction

/-- the port that packets leave through after some instructions; of several it is the last -/
def lastPort? (is : List Instruction) : Option PortNumber := (is.filterMap Instruction.port?).getLast?

/-- the groups that packets are handed on to -/
def references (is : List Instruction) : List GroupId := is.filterMap Instruction.group?

theorem lastVlan_append (is js : List Instruction) : lastVlan? (is ++ js) = (lastVlan? js).or (lastVlan? is) := by
  rw [lastVlan?, List.filterMap_append, List.getLast?_append, lastVlan?, lastVlan?]

theorem lastPort_append (is js : List Instruction) : lastPort? (is ++ js) = (lastPort? js).or (lastPort? is) := by
  rw [lastPort?, List.filterMap_append, List.getLast?_append, lastPort?, lastPort?]

/-- whatever is not carried out in the inner group has no port -/
theorem lastPort_filter_isInner (is : List Instruction) : lastPort? (is.filter Instruction.isInner) = lastPort? is := by
  rw [lastPort?, lastPort?, List.filterMap_filter]
  congr 2
  funext i
  cases i <;> rfl

theorem references_eq_nil {is : List Instruction} (h : ∀ id, .group id ∉ is) : references is = [] := by
  rw [references, List.filterMap_eq_nil_iff]
  intro i hi
  cases i with
  | group id => exact absurd hi (h id)
  | _ => rfl

/-- no VLAN is set first if and only if none is set last -/
theorem Treatment.vlanId_eq_none {t : Treatment} : t.vlanId? = none ↔ lastVlan? t.instructions = none := by
  have hfirst : t.vlanId? = t.instructions.findSome? Instruction.vlan? := rfl
  rw [hfirst, ← List.head?_filterMap, List.head?_eq_none_iff, lastVlan?, List.getLast?_eq_none_iff]

/-! ## Reading a treatment -/

namespace Split

/-- what the parts and the notes are after some more instructions -/
structure Reads (s : Split) (is : List Instruction) (s' : Split) : Prop where
  outer : s'.outer = s.outer ++ is.filter Instruction.isOuter
  inner : s'.inner = s.inner ++ is.filter Instruction.isInner
  vlan : s'.vlan? = (lastVlan? is).or s.vlan?
  port : s'.port? = (lastPort? is).or s.port?
  setsVlan : s'.setsVlan = (s.setsVlan || (lastVlan? is).isSome)
  popsVlan : s'.popsVlan = (s.popsVlan || is.contains .popVlan)

theorem reads_step (s : Split) (i : Instruction) : s.Reads [i] (s.step i) := by
  cases i <;> constructor <;>
    simp [step, Instruction.isOuter, Instruction.isInner, lastVlan?, Instruction.vlan?, lastPort?, Instruction.port?,
      List.filter_singleton]

theorem Reads.trans {s s' s'' : Split} {is js : List Instruction} (h : s.Reads is s') (h' : s'.Reads js s'') :
    s.Reads (is ++ js) s'' := by
  constructor
  · rw [h'.outer, h.outer, List.filter_append, List.append_assoc]
  · rw [h'.inner, h.inner, List.filter_append, List.append_assoc]
  · rw [h'.vlan, h.vlan, lastVlan_append, Option.or_assoc]
  · rw [h'.port, h.port, lastPort_append, Option.or_assoc]
  · rw [h'.setsVlan, h.setsVlan, lastVlan_append, Option.isSome_or, Bool.or_assoc, Bool.or_comm (lastVlan? is).isSome]
  · rw [h'.popsVlan, h.popsVlan, List.contains_append, Bool.or_assoc]

/-- **Instructions are sorted as they are read.** -/
theorem reads_foldl (is : List Instruction) (s : Split) : s.Reads is (is.foldl step s) := by
  induction is generalizing s with
  | nil => constructor <;> simp [lastVlan?, lastPort?]
  | cons i is ih => exact (s.reads_step i).trans (ih (s.step i))

theorem withHint_of_none {s : Split} (h : s.vlan? = none) (hint? : Option VlanId) : s.withHint hint? =
    { s with vlan? := hint?, outer := s.outer ++ (hint?.map Instruction.setVlanId).toList } := by
  obtain ⟨outer, inner, vlan?, port?, setsVlan, popsVlan, src, dst⟩ := s
  cases h
  cases hint? <;> simp [withHint]

theorem withHint_of_ne_none {s : Split} (h : s.vlan? ≠ none) (hint? : Option VlanId) : s.withHint hint? = s := by
  unfold withHint
  split
  · contradiction
  · rfl

/-- the hint has no part in what is popped -/
theorem inner_untagged_withHint (s : Split) (hint? : Option VlanId) :
    (s.withHint hint?).untagged.inner = s.untagged.inner := by
  by_cases h : s.vlan? = none
  · rw [withHint_of_none h, untagged, untagged]
    split_ifs <;> rfl
  · rw [withHint_of_ne_none h]

variable (t : Treatment) (hint? : Option VlanId)

/-- the hinted VLAN is set at the end of the outer part if the treatment sets none -/
theorem outer_ofTreatment : (ofTreatment t hint?).outer = t.instructions.filter Instruction.isOuter ++
    if t.vlanId? = none then (hint?.map Instruction.setVlanId).toList else [] := by
  have hread := reads_foldl t.instructions start
  have hvlan : (t.instructions.foldl step start).vlan? = none ↔ t.vlanId? = none := by
    rw [hread.vlan, Treatment.vlanId_eq_none, start, Option.or_none]
  rw [ofTreatment, outer_untagged]
  split_ifs with h
  · rw [withHint_of_none (hvlan.2 h), hread.outer]
    rfl
  · rw [withHint_of_ne_none (mt hvlan.1 h), hread.outer, List.append_nil]
    rfl

/-- a VLAN is popped at the start of the inner part if the treatment neither sets nor pops one -/
theorem inner_ofTreatment : (ofTreatment t hint?).inner =
    (if t.vlanId? = none ∧ .popVlan ∉ t.instructions then [.popVlan] else []) ++
      t.instructions.filter Instruction.isInner := by
  have hread := reads_foldl t.instructions start
  have hflags : ((t.instructions.foldl step start).setsVlan || (t.instructions.foldl step start).popsVlan) = true ↔
      ¬(t.vlanId? = none ∧ .popVlan ∉ t.instructions) := by
    rw [hread.setsVlan, hread.popsVlan, Treatment.vlanId_eq_none]
    simp [start, or_iff_not_imp_left]
  rw [ofTreatment, inner_untagged_withHint, untagged]
  by_cases h : t.vlanId? = none ∧ .popVlan ∉ t.instructions
  · rw [if_neg (fun hset => hflags.1 hset h), if_pos h, hread.inner]
    rfl
  · rw [if_pos (hflags.2 h), if_neg h, hread.inner]
    rfl

theorem group_not_mem_inner (id : GroupId) : .group id ∉ (ofTreatment t hint?).inner := by
  rw [inner_ofTreatment]
  split_ifs <;> simp [Instruction.isInner]

/-- the VLAN of the interface group is the one that the treatment sets last, or the hinted one -/
theorem vlan_eq_or : (ofTreatment t hint?).vlan? = (lastVlan? t.instructions).or hint? := by
  have hread := reads_foldl t.instructions start
  have hvlan : (t.instructions.foldl step start).vlan? = lastVlan? t.instructions := by
    rw [hread.vlan, start, Option.or_none]
  rw [ofTreatment, vlan_untagged]
  cases h : lastVlan? t.instructions with
  | none => rw [withHint_of_none (hvlan.trans h), Option.none_or]
  | some vlan => rw [withHint_of_ne_none (by simp [hvlan, h]), hvlan, h, Option.some_or]

/-- the port of the interface group is the one that it outputs to last -/
theorem port_eq_lastPort : (ofTreatment t hint?).port? = lastPort? (ofTreatment t hint?).inner := by
  have hread := reads_foldl t.instructions start
  have hport : (ofTreatment t hint?).port? = lastPort? t.instructions := by
    rw [ofTreatment, port_untagged, port_withHint, hread.port, start, Option.or_none]
  rw [hport, inner_ofTreatment, lastPort_append, lastPort_filter_isInner]
  split_ifs <;> simp [lastPort?, Instruction.port?]

end Split

/-! ## Both buckets -/

/-- the outer group carries out the instructions `above`, and then the inner one those `below` -/
structure Pair.CarriesOut (p : Pair) (t : Treatment) (hint? : Option VlanId) (device : DeviceId)
    (above below : List Instruction) (vlan : VlanId) (port : PortNumber) : Prop where
  /-- each group has one bucket -/
  buckets : p.outer.buckets = [⟨⟨above⟩⟩] ∧ p.inner.buckets = [⟨⟨below⟩⟩]
  /-- addresses and VLANs are set in their order, then the hinted VLAN if there was none, and the inner group follows -/
  outer : above = t.instructions.filter Instruction.isOuter ++
    (if t.vlanId? = none then [.setVlanId vlan] else []) ++ [.group p.inner.id]
  hinted : t.vlanId? = none → hint? = some vlan
  /-- VLANs are popped and packets output in their order, after a pop of its own if the treatment is silent on VLANs -/
  inner : below = (if t.vlanId? = none ∧ .popVlan ∉ t.instructions then [.popVlan] else []) ++
    t.instructions.filter Instruction.isInner
  references : references above = [p.inner.id] ∧ references below = []
  /-- the inner group is named after the VLAN with which packets get there and the port through which they leave -/
  lasts : lastVlan? above = some vlan ∧ lastPort? below = some port
  names : p.inner.key = Key.l2Interface device vlan port ∧ p.inner.id = GroupId.l2Interface vlan port

/-- **How a treatment is divided.** Whenever a pair of groups is made for a treatment, with or without a label, the
outer bucket sets the addresses and VLANs of the treatment in their order, and at the end the hinted VLAN if and only if
the treatment sets none; it refers to the inner group and to no other. The inner bucket pops VLANs and outputs as the
treatment does, and pops one at the start if and only if the treatment neither sets nor pops one. The last VLAN set in
the outer bucket and the last port of the inner one are those that the inner group has its key and its id from. -/
theorem treatment_is_divided {o : Objective} {device : DeviceId} {t : Treatment} {mpls : Bool} {p : Pair}
    (h : o.pair device t mpls = .ok p) :
    ∃ above below vlan port, p.CarriesOut t o.hintedVlan? device above below vlan port := by
  unfold Objective.pair at h
  dsimp only at h
  split at h <;> cases h
  rename_i vlan port hvlan hport
  have hhinted : t.vlanId? = none → o.hintedVlan? = some vlan := by
    intro hnone
    rw [← hvlan, Split.vlan_eq_or, Treatment.vlanId_eq_none.1 hnone, Option.none_or]
  have houter : (Split.ofTreatment t o.hintedVlan?).outer =
      t.instructions.filter Instruction.isOuter ++ if t.vlanId? = none then [.setVlanId vlan] else [] := by
    rw [Split.outer_ofTreatment]
    split_ifs with hnone
    · rw [hhinted hnone]
      rfl
    · rfl
  refine ⟨_, _, vlan, port, ⟨rfl, rfl⟩, congrArg (· ++ _) houter, hhinted, Split.inner_ofTreatment t _, ⟨?_, ?_⟩,
    ⟨?_, ?_⟩, rfl, rfl⟩
  · have hnone := references_eq_nil (Split.group_not_mem_outer t o.hintedVlan?)
    rw [references] at hnone
    rw [references, List.filterMap_append, hnone]
    rfl
  · exact references_eq_nil (Split.group_not_mem_inner t o.hintedVlan?)
  · rw [lastVlan_append, ← Split.vlan_ofTreatment, hvlan]
    rfl
  · rw [← Split.port_eq_lastPort, hport]

namespace Sample

/-- addresses and ports are given twice, a group and a TTL have no place in a pair, and the VLAN is left to the hint -/
def sundry : Treatment :=
  ⟨[.setEthDst dst, .output ⟨1⟩, .group ⟨5⟩, .setEthSrc dst, .decMplsTtl, .setEthDst .zero, .output ⟨7⟩]⟩

def hinted : Objective := ⟨4, .simple, [sundry], ⟨"sample"⟩, some ⟨[.vlanVid ⟨30⟩]⟩⟩

end Sample

/-- the hinted VLAN is set and popped, both ports stay, and the last one names the inner group -/
theorem mixed_treatment_is_divided : ∃ p, Sample.hinted.pair Sample.device Sample.sundry false = .ok p ∧
    p.CarriesOut Sample.sundry (some ⟨30⟩) Sample.device
      [.setEthDst Sample.dst, .setEthSrc Sample.dst, .setEthDst .zero, .setVlanId ⟨30⟩, .group ⟨0x001e0007⟩]
      [.popVlan, .output ⟨1⟩, .output ⟨7⟩] ⟨30⟩ ⟨7⟩ := by
  have hp : ∃ p, Sample.hinted.pair Sample.device Sample.sundry false = .ok p := ⟨_, rfl⟩
  obtain ⟨p, hp⟩ := hp
  obtain ⟨above, below, vlan, port, hdivided⟩ := treatment_is_divided hp
  cases hdivided.hinted rfl
  have hbelow : below = [.popVlan, .output ⟨1⟩, .output ⟨7⟩] := hdivided.inner
  subst hbelow
  cases hdivided.lasts.2
  have habove : above = [.setEthDst Sample.dst, .setEthSrc Sample.dst, .setEthDst .zero, .setVlanId ⟨30⟩,
      .group ⟨0x001e0007⟩] := by
    rw [hdivided.outer, hdivided.names.2]
    rfl
  subst habove
  exact ⟨p, hp, hdivided⟩

end FlowGroups
