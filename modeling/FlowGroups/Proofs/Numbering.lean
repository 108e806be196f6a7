/-
Groups that are named by numbers. The key of an ECMP or flood group is made from the id of its objective, the key of a
VPN group from the id of its objective and the index of its allocation. A key has no room for all bits of these numbers.

- `tops_shared_iff`: two hashed objectives, or two broadcast ones, share their top-level group if and only if the lower
  sixteen bits of their ids agree.
- `distant_objectives_share_tops`: the objectives 1 and 65537 have one top-level key.
- `vpn_groups_apart`: fewer than 2 ^ 24 VPN groups of one planner have different ids. Their keys are different as long
  as they are no more than 2 ^ 12; after that the index runs into the bits of the objective.
- `vpn_groups_under_one_key`: one objective is built 4097 times, and the first VPN group and the last have one key.
-/
import Mathlib.Data.Nat.ModEq
import FlowGroups.Proofs.Deletion
import FlowGroups.Proofs.Dependencies

namespace FlowGroups

/-! ## Keys as words -/

namespace Key

theorem ofWord_inj {x y : UInt32} : ofWord x = ofWord y ↔ x = y :=
  ⟨fun h => Word.big32_injective (congrArg octets h), congrArg ofWord⟩

/-- of a number moved twelve bits up, a field of 28 bits keeps the lower sixteen bits -/
theorem shifted_inj {tag x y : UInt32} {n : Nat} (ht : tag.toNat = 2 ^ 28 * n) :
    (tag ||| (Tag.belowType &&& x <<< 12)) = (tag ||| (Tag.belowType &&& y <<< 12)) ↔
      x.toNat % 2 ^ 16 = y.toNat % 2 ^ 16 := by
  have hshift : ∀ z : UInt32, (z <<< 12).toNat % 2 ^ 28 = z.toNat % 2 ^ 16 * 2 ^ 12 := by
    intro z
    rw [Word.toNat_shiftLeft_eq (j := 12) rfl]
    omega
  rw [Word.field_inj ht (by decide), hshift, hshift]
  omega

theorem l3Ecmp_inj {x y : UInt32} : l3Ecmp x = l3Ecmp y ↔ x.toNat % 2 ^ 16 = y.toNat % 2 ^ 16 := by
  unfold l3Ecmp GroupId.l3Ecmp
  rw [ofWord_inj, shifted_inj (n := 7) (by decide)]

theorem l2Flood_inj {x y : UInt32} : l2Flood x = l2Flood y ↔ x.toNat % 2 ^ 16 = y.toNat % 2 ^ 16 := by
  unfold l2Flood
  rw [ofWord_inj, shifted_inj (n := 4) (by decide)]

end Key

/-! ## The top-level groups of objectives -/

/-- of all keys of the top layer, a record lists at most the top-level one of its objective -/
theorem Planner.mem_record_iff_of_build {planner : Planner} {o : Objective} {p : Plan}
    (h : (planner.build o).1 = .ok p) {k : Key} (hlevel : k.level = 3) :
    k ∈ p.record.distinctKeys ↔ k = p.topKey := by
  have hplanned : (Request.install 0 o p).Planned planner.device := ⟨planner.vpnIndex, h⟩
  rw [Record.mem_distinctKeys]
  constructor
  · rintro ⟨chain, hchain, hmem⟩
    obtain ⟨rest, rfl⟩ := List.head?_eq_some_iff.1 ((sound_of_build h).2.topped chain hchain)
    have hdown : Descends (p.topKey :: rest) := hplanned.descends rfl _ hchain
    have hbelow : ∀ inner ∈ rest, inner.level < p.topKey.level :=
      (List.pairwise_cons.1 (List.isChain_iff_pairwise.1 hdown)).1
    rcases List.mem_cons.1 hmem with htop | hrest
    · exact htop
    · have hlt := hbelow k hrest
      have hle := Key.level_le p.topKey
      omega
  · rintro rfl
    obtain ⟨cs, crown, -, ⟨hassembles, -⟩⟩ := composes_of_build h
    obtain ⟨c, hc⟩ := List.exists_mem_of_ne_nil cs hassembles.nonempty
    have hchain : crown.map (·.descriptor.key) ++ c.keys ∈ p.record.chains := hassembles.chains ▸ List.mem_map_of_mem hc
    exact ⟨_, hchain, List.mem_of_head? ((sound_of_build h).2.topped _ hchain)⟩

namespace Objective

variable {o o' : Objective}

theorem topKey_inj (h : o'.kind = o.kind) : o.topKey = o'.topKey ↔ o.id.toNat % 2 ^ 16 = o'.id.toNat % 2 ^ 16 := by
  unfold topKey
  rw [h]
  split
  · exact Key.l2Flood_inj
  · exact Key.l3Ecmp_inj

end Objective

/-- **When objectives share their top-level group.** Let two objectives be of one kind, hashed or broadcast, and let
both be accepted, in whatever state their planners are. They are completed by confirmations of one key, and the record
of one lists the top-level group of the other for removal, if and only if their ids agree in the lower sixteen bits. -/
theorem tops_shared_iff {a b : Planner} {o o' : Objective} {p q : Plan} (hk : o.kind = .hashed ∨ o.kind = .broadcast)
    (hsame : o'.kind = o.kind) (hp : (a.build o).1 = .ok p) (hq : (b.build o').1 = .ok q) :
    (p.topKey = q.topKey ↔ o.id.toNat % 2 ^ 16 = o'.id.toNat % 2 ^ 16) ∧
      (q.topKey ∈ p.record.distinctKeys ↔ o.id.toNat % 2 ^ 16 = o'.id.toNat % 2 ^ 16) := by
  have hpTop : p.topKey = o.topKey := Planner.topKey_of_build hk hp
  have hqTop : q.topKey = o'.topKey := Planner.topKey_of_build (hsame ▸ hk) hq
  have hkeys : p.topKey = q.topKey ↔ o.id.toNat % 2 ^ 16 = o'.id.toNat % 2 ^ 16 := by
    rw [hpTop, hqTop, Objective.topKey_inj hsame]
  refine ⟨hkeys, ?_⟩
  rw [Planner.mem_record_iff_of_build hp (hqTop ▸ o'.level_topKey), eq_comm, hkeys]

namespace Sample

/-- one bucket, which is good for either kind -/
def numbered (kind : ObjectiveKind) (n : UInt32) : Objective := ⟨n, kind, [bucket ⟨10⟩], ⟨"sample"⟩, none⟩

end Sample

/-- the objectives 1 and 2 have a top-level group each -/
theorem neighbours_have_own_tops : ∃ p q, ((Planner.fresh Sample.device).build (Sample.numbered .hashed 1)).1 = .ok p ∧
    ((Planner.fresh Sample.device).build (Sample.numbered .hashed 2)).1 = .ok q ∧ p.topKey ≠ q.topKey ∧
    q.topKey ∉ p.record.distinctKeys := by
  have hp : ∃ p, ((Planner.fresh Sample.device).build (Sample.numbered .hashed 1)).1 = .ok p := ⟨_, rfl⟩
  have hq : ∃ q, ((Planner.fresh Sample.device).build (Sample.numbered .hashed 2)).1 = .ok q := ⟨_, rfl⟩
  obtain ⟨p, hp⟩ := hp
  obtain ⟨q, hq⟩ := hq
  have hsame : (Sample.numbered .hashed 2).kind = (Sample.numbered .hashed 1).kind := rfl
  have hshared := tops_shared_iff (.inl rfl) hsame hp hq
  exact ⟨p, q, hp, hq, fun h => absurd (hshared.1.1 h) (by decide), fun h => absurd (hshared.2.1 h) (by decide)⟩

/-- **Objectives that share their top-level group.** The ids 1 and 65537 differ, and both objectives are accepted; their
plans have one top-level key, be they hashed or broadcast. -/
theorem distant_objectives_share_tops :
    (1 : UInt32) ≠ 65537 ∧
      (∃ p q, ((Planner.fresh Sample.device).build (Sample.numbered .hashed 1)).1 = .ok p ∧
        ((Planner.fresh Sample.device).build (Sample.numbered .hashed 65537)).1 = .ok q ∧ p.topKey = q.topKey) ∧
      ∃ p q, ((Planner.fresh Sample.device).build (Sample.numbered .broadcast 1)).1 = .ok p ∧
        ((Planner.fresh Sample.device).build (Sample.numbered .broadcast 65537)).1 = .ok q ∧ p.topKey = q.topKey :=
  ⟨by decide, ⟨_, _, rfl, rfl, by decide⟩, _, _, rfl, rfl, by decide⟩

/-! ## The numbers of VPN groups -/

/-- numbers in two fields next to each other are combined field by field -/
theorem or_fields {x y z : Nat} {i : Nat} (hz : z < 2 ^ i) : 2 ^ i * x ||| (2 ^ i * y + z) = 2 ^ i * (x ||| y) + z := by
  have hshift : 2 ^ i * (x ||| y) = 2 ^ i * x ||| 2 ^ i * y := by
    simp only [Nat.mul_comm (2 ^ i), ← Nat.shiftLeft_eq, Nat.shiftLeft_or_distrib]
  calc 2 ^ i * x ||| (2 ^ i * y + z)
      = 2 ^ i * x ||| (2 ^ i * y ||| z) := by rw [Nat.two_pow_add_eq_or_of_lt hz]
    _ = 2 ^ i * (x ||| y) ||| z := by rw [hshift, Nat.or_assoc]
    _ = 2 ^ i * (x ||| y) + z := (Nat.two_pow_add_eq_or_of_lt hz _).symm

/-- what the key of a VPN group keeps above the lower twelve bits of its index -/
def mingled (objective index : UInt32) : Nat := objective.toNat % 2 ^ 12 ||| index.toNat / 2 ^ 12 % 2 ^ 12

theorem GroupId.mplsL3Vpn_inj {i j : UInt32} : mplsL3Vpn i = mplsL3Vpn j ↔ i.toNat % 2 ^ 24 = j.toNat % 2 ^ 24 := by
  rw [mplsL3Vpn, mplsL3Vpn, GroupId.mk.injEq, UInt32.and_comm i, UInt32.and_comm j,
    Word.field_inj (i := 24) (m := 146) (by decide) (by decide)]

theorem Key.mplsL3Vpn_inj {m n i j : UInt32} :
    mplsL3Vpn m i = mplsL3Vpn n j ↔ i.toNat % 2 ^ 12 = j.toNat % 2 ^ 12 ∧ mingled m i = mingled n j := by
  have hfield : ∀ m i : UInt32, (m <<< 12 ||| i).toNat % 2 ^ 24 = 2 ^ 12 * mingled m i + i.toNat % 2 ^ 12 := by
    intro m i
    have hm : (m <<< 12).toNat % 2 ^ 24 = 2 ^ 12 * (m.toNat % 2 ^ 12) := by
      rw [Word.toNat_shiftLeft_eq (j := 12) rfl]
      omega
    have hi : i.toNat % 2 ^ 24 = 2 ^ 12 * (i.toNat / 2 ^ 12 % 2 ^ 12) + i.toNat % 2 ^ 12 := by omega
    rw [UInt32.toNat_or, Nat.or_mod_two_pow, hm, hi, or_fields (Nat.mod_lt _ (by decide)), mingled]
  rw [mplsL3Vpn, mplsL3Vpn, ofWord_inj, Word.field_inj (i := 24) (m := 146) (by decide) (by decide),
    hfield, hfield]
  omega

/-! ## The VPN groups that a planner makes -/

/-- does the group lie in the layer of VPN groups? -/
def Descriptor.isVpn (d : Descriptor) : Bool := d.key.level == 2

/-- a VPN group, and the objective that it is made for -/
structure VpnGroup where
  objective : UInt32
  descriptor : Descriptor
deriving DecidableEq

/-- the groups are numbered one after the other, and the last index before them is the given one -/
def Numbered : UInt32 → List VpnGroup → Prop
  | _, [] => True
  | i, v :: vs => v.descriptor.id = .mplsL3Vpn (i + 1) ∧ v.descriptor.key = .mplsL3Vpn v.objective (i + 1) ∧
      Numbered (i + 1) vs

theorem Numbered.append {i : UInt32} {vs ws : List VpnGroup} (h : Numbered i vs)
    (h' : Numbered (i + UInt32.ofNat vs.length) ws) : Numbered i (vs ++ ws) := by
  induction vs generalizing i with
  | nil => simpa using h'
  | cons v vs ih =>
    refine ⟨h.1, h.2.1, ih h.2.2 ?_⟩
    rwa [List.length_cons, Nat.add_comm, UInt32.ofNat_add, ← UInt32.add_assoc] at h'

theorem Numbered.get {i : UInt32} {vs : List VpnGroup} (h : Numbered i vs) {n : Nat} {v : VpnGroup}
    (hv : vs[n]? = some v) : v.descriptor.id = .mplsL3Vpn (i + UInt32.ofNat (n + 1)) ∧
      v.descriptor.key = .mplsL3Vpn v.objective (i + UInt32.ofNat (n + 1)) := by
  induction vs generalizing i n with
  | nil => simp at hv
  | cons w vs ih =>
    cases n with
    | zero =>
      cases hv
      exact ⟨h.1, h.2.1⟩
    | succ n =>
      rw [Nat.add_comm, UInt32.ofNat_add, ← UInt32.add_assoc]
      exact ih h.2.2 (by simpa using hv)

namespace Objective

variable {o : Objective} {device : DeviceId} {t : Treatment} {i j : UInt32}

/-- the groups that are made for some buckets, up to the first bucket that has no chain -/
def bucketGroups (o : Objective) (device : DeviceId) : List Treatment → UInt32 → List Descriptor
  | [], _ => []
  | t :: ts, i =>
    match o.bucketChain device t i with
    | (.error _, _) => []
    | (.ok c, j) => c.groups ++ o.bucketGroups device ts j

/-- the VPN groups among them -/
def vpnGroups (o : Objective) (device : DeviceId) (ts : List Treatment) (i : UInt32) : List VpnGroup :=
  ((o.bucketGroups device ts i).filter Descriptor.isVpn).map (VpnGroup.mk o.id)

/-- a bucket takes the next index if it has a VPN group, and no index otherwise -/
theorem vpn_of_bucketChain {c : BucketChain} (h : o.bucketChain device t i = (.ok c, j)) :
    (c.groups.filter Descriptor.isVpn = [] ∧ j = i) ∨
      (t.mplsPushes = 1 ∧ ∃ d, c.groups.filter Descriptor.isVpn = [d] ∧ d.id = .mplsL3Vpn (i + 1) ∧
        d.key = .mplsL3Vpn o.id (i + 1) ∧ j = i + 1) := by
  rcases cases_of_bucketChain h with ⟨q, -, hq, rfl, hindex⟩ | ⟨q, label, hone, hq, rfl, hindex⟩
  · obtain ⟨-, -, hinner, houter⟩ := of_pair hq
    refine .inl ⟨?_, hindex⟩
    simp [BucketChain.ofPair, BucketChain.groups, Element.after, Descriptor.isVpn, hinner, houter]
  · obtain ⟨-, -, hinner, houter⟩ := of_pair hq
    have hvpn : (o.vpnGroup device label q.outer.id (i + 1)).key.level = 2 := Key.level_mplsL3Vpn o.id (i + 1)
    refine .inr ⟨hone, o.vpnGroup device label q.outer.id (i + 1), ?_, rfl, rfl, hindex⟩
    simp [BucketChain.ofLabel, BucketChain.groups, Element.after, Descriptor.isVpn, hinner, houter, hvpn]

theorem index_of_failed {e : PlanError} (h : o.bucketChain device t i = (.error e, j)) : j = i := by
  unfold bucketChain at h
  split at h
  · split at h <;> cases h
    rfl
  · split at h <;> cases h <;> rfl
  · cases h
    rfl

theorem vpnGroups_cons (ts : List Treatment) {c : BucketChain} (h : o.bucketChain device t i = (.ok c, j)) :
    o.vpnGroups device (t :: ts) i =
      (c.groups.filter Descriptor.isVpn).map (VpnGroup.mk o.id) ++ o.vpnGroups device ts j := by
  simp [vpnGroups, bucketGroups, h]

/-- indexes are counted on by one for each VPN group, also if some bucket has no chain in the end -/
theorem numbered_vpnGroups (o : Objective) (device : DeviceId) (ts : List Treatment) (i : UInt32) :
    Numbered i (o.vpnGroups device ts i) ∧
      (o.bucketChains device ts i).2 = i + UInt32.ofNat (o.vpnGroups device ts i).length := by
  induction ts generalizing i with
  | nil => simp [vpnGroups, bucketGroups, Numbered, bucketChains]
  | cons t ts ih =>
    cases hc : o.bucketChain device t i with
    | mk result j =>
      cases result with
      | error e =>
        have hj := index_of_failed hc
        simp [vpnGroups, bucketGroups, bucketChains, hc, Numbered, hj]
      | ok c =>
        obtain ⟨hnumbered, hindex⟩ := ih j
        have hlast : (o.bucketChains device (t :: ts) i).2 = (o.bucketChains device ts j).2 := by
          simp only [bucketChains, hc]
          split <;> rename_i hcs <;> rw [hcs]
        rw [vpnGroups_cons ts hc, hlast, hindex]
        rcases vpn_of_bucketChain hc with ⟨hnone, rfl⟩ | ⟨-, d, hone, hid, hkey, rfl⟩
        · rw [hnone]
          exact ⟨hnumbered, rfl⟩
        · rw [hone]
          refine ⟨⟨hid, hkey, hnumbered⟩, ?_⟩
          simp [Nat.add_comm, UInt32.ofNat_add, UInt32.add_assoc]

/-- only a bucket that pushes a label has a VPN group -/
theorem length_vpnGroups_le (o : Objective) (device : DeviceId) (ts : List Treatment) (i : UInt32) :
    (o.vpnGroups device ts i).length ≤ ts.countP fun t => t.mplsPushes = 1 := by
  induction ts generalizing i with
  | nil => simp [vpnGroups, bucketGroups]
  | cons t ts ih =>
    cases hc : o.bucketChain device t i with
    | mk result j =>
      cases result with
      | error e => simp [vpnGroups, bucketGroups, hc]
      | ok c =>
        have hrest := ih j
        rw [vpnGroups_cons ts hc, List.countP_cons]
        rcases vpn_of_bucketChain hc with ⟨hnone, -⟩ | ⟨hlabel, d, hone, -⟩
        · simp only [hnone, List.map_nil, List.nil_append]
          omega
        · simp only [hone, hlabel, List.map_singleton, List.length_append, List.length_singleton, decide_true, if_true]
          omega

/-- all chains of a plan are made, so all of its groups are -/
theorem bucketGroups_of_bucketChains {ts : List Treatment} {cs : List BucketChain}
    (h : o.bucketChains device ts i = (.ok cs, j)) : o.bucketGroups device ts i = cs.flatMap BucketChain.groups := by
  induction ts generalizing i cs with
  | nil =>
    cases h
    rfl
  | cons t ts ih =>
    obtain ⟨c, k, rest, hc, hrest, rfl⟩ := bucketChains_cons_eq_ok h
    simp only [bucketGroups, hc, ih hrest, List.flatMap_cons]

end Objective

theorem Planner.bucketGroups_of_chains {planner : Planner} {o : Objective} {cs : List BucketChain}
    (hk : o.kind = .hashed) (h : planner.chains o = .ok cs) :
    o.bucketGroups planner.device o.treatments planner.vpnIndex = cs.flatMap BucketChain.groups := by
  simp only [chains, hk] at h
  exact Objective.bucketGroups_of_bucketChains (Prod.ext h rfl)

/-- only hashed objectives have VPN groups -/
theorem Objective.MakesAll.no_vpn {o : Objective} {device : DeviceId} {ts : List Treatment} {cs : List BucketChain}
    (h : o.MakesAll device ts cs) (hk : o.kind ≠ .hashed) :
    (cs.flatMap BucketChain.groups).filter Descriptor.isVpn = [] := by
  rw [List.filter_eq_nil_iff]
  intro d hd
  obtain ⟨c, hc, hd⟩ := List.mem_flatMap.1 hd
  obtain ⟨t, -, hmakes⟩ := forall₂_exists_left h c hc
  cases hmakes with
  | group _ hmade =>
    obtain ⟨-, hlevel⟩ := of_l2Interface hmade
    simp only [BucketChain.ofGroup, BucketChain.groups, List.map_nil, List.mem_singleton] at hd
    simp [Descriptor.isVpn, hd, hlevel]
  | pair _ _ hmade =>
    obtain ⟨-, -, hinner, houter⟩ := of_pair hmade
    simp only [BucketChain.ofPair, BucketChain.groups, List.map_cons, List.map_nil, List.mem_cons, List.not_mem_nil,
      or_false] at hd
    rcases hd with rfl | rfl <;> simp [Descriptor.isVpn, Element.after, hinner, houter]
  | label hkind _ _ => exact absurd hkind hk

/-- neither the interface groups of a plan are VPN groups nor the one on top, and no other group is dropped -/
theorem Plan.Composes.vpns {o : Objective} {device : DeviceId} {adds : Bool} {p : Plan} {cs : List BucketChain}
    {crown : List Element} (h : p.Composes o device adds cs crown) :
    p.descriptors.filter Descriptor.isVpn = (cs.flatMap BucketChain.groups).filter Descriptor.isVpn := by
  have hinitial : p.initial.filter Descriptor.isVpn = [] := by
    rw [List.filter_eq_nil_iff]
    intro d hd
    obtain ⟨c, hc, rfl⟩ := h.assembles.mem_initial hd
    simp [Descriptor.isVpn, (h.layered c hc).bottom]
  have hcrown : (crown.map (·.descriptor)).filter Descriptor.isVpn = [] := by
    rw [List.filter_eq_nil_iff]
    intro d hd
    obtain ⟨e, he, rfl⟩ := List.mem_map.1 hd
    simp [Descriptor.isVpn, h.level_top he]
  have hchains : ∀ c ∈ cs, (c.elements.map (·.descriptor)).filter Descriptor.isVpn =
      c.groups.filter Descriptor.isVpn := by
    intro c hc
    simp [BucketChain.groups, Descriptor.isVpn, (h.layered c hc).bottom]
  rw [descriptors, List.filter_append, hinitial, h.assembles.elements, List.map_append, List.filter_append, hcrown,
    List.map_flatMap, List.filter_flatMap, List.filter_flatMap, List.flatMap_congr hchains, List.nil_append,
    List.append_nil]

/-! ## Calls of one planner -/

/-- what a planner is called for, directly or through a clone, which counts on with it -/
inductive Call
  | build (o : Objective)
  | addBucket (o : Objective)
deriving DecidableEq

namespace Call

def objective : Call → Objective
  | build o | addBucket o => o

/-- the buckets that a call makes chains for -/
def buckets : Call → List Treatment
  | build o => if o.kind = .hashed then o.treatments else []
  | addBucket o => if o.kind = .hashed then o.onlyTreatment.toOption.toList else []

theorem buckets_of_not_hashed {c : Call} (hk : c.objective.kind ≠ .hashed) : c.buckets = [] := by
  cases c <;> exact if_neg hk

end Call

namespace Planner

def call (planner : Planner) : Call → Except PlanError Plan × Planner
  | .build o => planner.build o
  | .addBucket o => planner.buildAddBucket o

/-- the VPN groups that one call makes, be it successful or not -/
def vpnsOf (planner : Planner) (c : Call) : List VpnGroup :=
  c.objective.vpnGroups planner.device c.buckets planner.vpnIndex

/-- the VPN groups that are made in a sequence of calls -/
def created (planner : Planner) : List Call → List VpnGroup
  | [] => []
  | c :: cs => planner.vpnsOf c ++ (planner.call c).2.created cs

/-- the plans that the calls return, if they are successful -/
def plans (planner : Planner) : List Call → List Plan
  | [] => []
  | c :: cs => (planner.call c).1.toOption.toList ++ (planner.call c).2.plans cs

variable {planner : Planner}

/-- either no chain is made, or the plan is one of a hashed objective -/
theorem call_cases (planner : Planner) (c : Call) :
    ((planner.call c).2 = planner ∧ c.buckets = []) ∨
      ∃ b, planner.call c = planner.planHashed c.objective c.buckets b := by
  cases c with
  | build o =>
    simp only [call, build, Call.objective]
    split <;> rename_i hk
    · exact .inl ⟨rfl, by simp [Call.buckets, hk]⟩
    · exact .inl ⟨rfl, by simp [Call.buckets, hk]⟩
    · split
      · rename_i hempty
        exact .inl ⟨rfl, by simpa [Call.buckets] using fun _ => hempty⟩
      · exact .inr ⟨false, by simp [Call.buckets, hk]⟩
    · exact .inl ⟨rfl, by simp [Call.buckets, hk]⟩
  | addBucket o =>
    simp only [call, buildAddBucket, Call.objective]
    split <;> rename_i hk
    · split <;> rename_i honly
      · exact .inl ⟨rfl, by simp [Call.buckets, hk, honly, Except.toOption]⟩
      · exact .inr ⟨true, by simp [Call.buckets, hk, honly, Except.toOption]⟩
    · exact .inl ⟨rfl, by simp [Call.buckets, hk]⟩

/-- a call leaves a planner that has counted the VPN groups of the call -/
theorem call_snd (planner : Planner) (c : Call) : (planner.call c).2 =
    { planner with vpnIndex := planner.vpnIndex + UInt32.ofNat (planner.vpnsOf c).length } := by
  rcases planner.call_cases c with ⟨hsame, hbuckets⟩ | ⟨b, hcall⟩
  · rw [hsame, vpnsOf, hbuckets]
    simp [Objective.vpnGroups, Objective.bucketGroups]
  · rw [hcall, vpnsOf, ← (c.objective.numbered_vpnGroups planner.device c.buckets planner.vpnIndex).2, planHashed]
    split <;> rename_i hchains <;> rw [hchains]

/-- a call that succeeds puts a plan together from the chains of its buckets -/
theorem composes_of_call {c : Call} {p : Plan} (h : (planner.call c).1 = .ok p) :
    ∃ adds cs crown, planner.chains c.objective = .ok cs ∧ p.Composes c.objective planner.device adds cs crown ∧
      (c.objective.kind = .hashed → c.buckets = c.objective.treatments) := by
  cases c with
  | build o =>
    obtain ⟨cs, crown, hcs, hcomposes⟩ := composes_of_build h
    exact ⟨false, cs, crown, hcs, hcomposes, fun hk => if_pos hk⟩
  | addBucket o =>
    obtain ⟨hk, cs, crown, hcs, hcomposes⟩ := composes_of_buildAddBucket h
    refine ⟨true, cs, crown, hcs, hcomposes, fun _ => ?_⟩
    simp only [call, buildAddBucket, hk, if_true] at h
    split at h
    · cases h
    · rename_i t ht
      simp [Call.buckets, Call.objective, hk, ht, Except.toOption, Objective.treatments_of_onlyTreatment ht]

/-- the VPN groups of a plan are those that the call has made -/
theorem vpnsOf_of_call {c : Call} {p : Plan} (h : (planner.call c).1 = .ok p) :
    p.descriptors.filter Descriptor.isVpn = (planner.vpnsOf c).map (·.descriptor) := by
  obtain ⟨adds, cs, crown, hcs, hcomposes, hbuckets⟩ := composes_of_call h
  rw [hcomposes.vpns, vpnsOf]
  by_cases hk : c.objective.kind = .hashed
  · rw [hbuckets hk, Objective.vpnGroups, bucketGroups_of_chains hk hcs, List.map_map]
    exact (List.map_id _).symm
  · rw [hcomposes.made.no_vpn hk, Call.buckets_of_not_hashed hk]
    rfl

/-- all VPN groups of a sequence of calls are numbered one after the other -/
theorem numbered_created (planner : Planner) (calls : List Call) :
    Numbered planner.vpnIndex (planner.created calls) := by
  induction calls generalizing planner with
  | nil => trivial
  | cons c cs ih =>
    apply Numbered.append
    · exact (c.objective.numbered_vpnGroups planner.device c.buckets planner.vpnIndex).1
    · have hrest := ih (planner.call c).2
      rw [call_snd] at hrest ⊢
      exact hrest

/-- the VPN groups of the plans of some calls -/
def plannedVpns (planner : Planner) (calls : List Call) : List Descriptor :=
  (planner.plans calls).flatMap fun p => p.descriptors.filter Descriptor.isVpn

/-- of all VPN groups that are made, the plans keep those of the calls that succeed -/
theorem plannedVpns_sublist (planner : Planner) (calls : List Call) :
    (planner.plannedVpns calls).Sublist ((planner.created calls).map (·.descriptor)) := by
  induction calls generalizing planner with
  | nil => exact List.Sublist.slnil
  | cons c cs ih =>
    have hfirst : ((planner.call c).1.toOption.toList.flatMap fun p => p.descriptors.filter Descriptor.isVpn).Sublist
        ((planner.vpnsOf c).map (·.descriptor)) := by
      cases hresult : (planner.call c).1 with
      | error e => exact List.nil_sublist _
      | ok p =>
        rw [← vpnsOf_of_call hresult]
        simp [Except.toOption]
    rw [plannedVpns, plans, List.flatMap_append, created, List.map_append]
    exact hfirst.append (ih _)

end Planner

/-! ## Which VPN groups are kept apart -/

/-- indexes counted on from one, as long as they are few, differ in their lower bits -/
theorem eq_of_index {i : UInt32} {m n w : Nat} (hw : w ≤ 32) (hm : m < 2 ^ w) (hn : n < 2 ^ w)
    (h : (i + UInt32.ofNat (m + 1)).toNat % 2 ^ w = (i + UInt32.ofNat (n + 1)).toNat % 2 ^ w) : m = n := by
  have hcount : ∀ k, (i + UInt32.ofNat (k + 1)).toNat % 2 ^ w = (i.toNat + 1 + k) % 2 ^ w := by
    intro k
    rw [UInt32.toNat_add, UInt32.toNat_ofNat', Nat.add_mod_mod, Nat.mod_mod_of_dvd _ (Nat.pow_dvd_pow 2 hw)]
    congr 1
    omega
  rw [hcount, hcount] at h
  exact Nat.ModEq.eq_of_lt_of_lt (Nat.ModEq.add_left_cancel' _ h) hm hn

/-- a name that keeps the lower bits of the index is given only once, as long as the groups are few -/
theorem Numbered.nodup {β : Type} {f : Descriptor → β} {i : UInt32} {vs : List VpnGroup} {w : Nat} (hw : w ≤ 32)
    (hfew : vs.length ≤ 2 ^ w)
    (hf : ∀ m n u v, vs[m]? = some u → vs[n]? = some v → f u.descriptor = f v.descriptor →
      (i + UInt32.ofNat (m + 1)).toNat % 2 ^ w = (i + UInt32.ofNat (n + 1)).toNat % 2 ^ w) :
    (vs.map fun v => f v.descriptor).Nodup := by
  rw [List.Nodup, List.pairwise_map, List.pairwise_iff_getElem]
  intro m n hm hn hlt heq
  have hsame := hf m n vs[m] vs[n] (List.getElem?_eq_getElem hm) (List.getElem?_eq_getElem hn) heq
  have hmn : m = n := eq_of_index hw (by omega) (by omega) hsame
  omega

theorem Numbered.key_eq_iff {i : UInt32} {vs : List VpnGroup} (h : Numbered i vs) {m n : Nat} {u v : VpnGroup}
    (hu : vs[m]? = some u) (hv : vs[n]? = some v) : u.descriptor.key = v.descriptor.key ↔
      (i + UInt32.ofNat (m + 1)).toNat % 2 ^ 12 = (i + UInt32.ofNat (n + 1)).toNat % 2 ^ 12 ∧
        mingled u.objective (i + UInt32.ofNat (m + 1)) = mingled v.objective (i + UInt32.ofNat (n + 1)) := by
  rw [(h.get hu).2, (h.get hv).2, Key.mplsL3Vpn_inj]

theorem Numbered.nodup_keys {i : UInt32} {vs : List VpnGroup} (h : Numbered i vs) (hfew : vs.length ≤ 2 ^ 12) :
    (vs.map (·.descriptor.key)).Nodup := by
  apply Numbered.nodup (i := i) (w := 12) (by decide) hfew
  intro m n u v hu hv hkey
  exact ((h.key_eq_iff hu hv).1 hkey).1

theorem Numbered.nodup_ids {i : UInt32} {vs : List VpnGroup} (h : Numbered i vs) (hfew : vs.length ≤ 2 ^ 24) :
    (vs.map (·.descriptor.id)).Nodup := by
  apply Numbered.nodup (i := i) (w := 24) (by decide) hfew
  intro m n u v hu hv hid
  rwa [(h.get hu).1, (h.get hv).1, GroupId.mplsL3Vpn_inj] at hid

/-- **VPN groups of one planner.** Let a planner, in whatever state, be called any number of times, successfully or not,
and make fewer than 2 ^ 24 VPN groups, among them those of all plans. Then their ids are different. Two of their keys
are the same if and only if the indexes agree in the lower twelve bits, and the twelve bits above, into which the ids of
the objectives are mixed, come out the same. So the keys are different as long as the groups are no more than 2 ^ 12. -/
theorem vpn_groups_apart (planner : Planner) (calls : List Call) (hfew : (planner.created calls).length < 2 ^ 24) :
    let index := fun n => planner.vpnIndex + UInt32.ofNat (n + 1)
    (planner.plannedVpns calls).Sublist ((planner.created calls).map (·.descriptor)) ∧
      ((planner.created calls).map (·.descriptor.id)).Nodup ∧
      (∀ m n u v, (planner.created calls)[m]? = some u → (planner.created calls)[n]? = some v →
        (u.descriptor.key = v.descriptor.key ↔ (index m).toNat % 2 ^ 12 = (index n).toNat % 2 ^ 12 ∧
          mingled u.objective (index m) = mingled v.objective (index n))) ∧
      ((planner.created calls).length ≤ 2 ^ 12 → ((planner.created calls).map (·.descriptor.key)).Nodup) := by
  intro index
  have hnumbered := planner.numbered_created calls
  exact ⟨planner.plannedVpns_sublist calls, hnumbered.nodup_ids (Nat.le_of_lt hfew),
    fun m n u v hu hv => hnumbered.key_eq_iff hu hv, hnumbered.nodup_keys⟩

namespace Sample

def carrierBucket : Treatment := ⟨[.pushMpls, .setMplsLabel ⟨100⟩, .setEthDst dst, .setVlanId ⟨10⟩, .output ⟨7⟩]⟩

/-- one bucket that pushes a label -/
def carrier : Objective := ⟨1, .hashed, [carrierBucket], ⟨"sample"⟩, none⟩

/-- the second bucket pushes a label of no value; the index of the first one is spent all the same -/
def halfCarrier : Objective := ⟨2, .hashed, [carrierBucket, ⟨[.pushMpls, .output ⟨7⟩]⟩], ⟨"sample"⟩, none⟩

end Sample

/-- one call fails, and three VPN groups are made -/
theorem vpn_groups_of_sample_apart :
    let calls : List Call := [.build Sample.halfCarrier, .build Sample.carrier, .addBucket Sample.carrier]
    let planner := Planner.fresh Sample.device
    (planner.created calls).length = 3 ∧ (planner.plans calls).length = 2 ∧
      ((planner.created calls).map (·.descriptor.id)).Nodup ∧
      ((planner.created calls).map (·.descriptor.key)).Nodup := by
  intro calls planner
  have hcreated : (planner.created calls).length = 3 := by decide +kernel
  have hplans : (planner.plans calls).length = 2 := by decide +kernel
  obtain ⟨-, hids, -, hkeys⟩ := vpn_groups_apart planner calls (by omega)
  exact ⟨hcreated, hplans, hids, hkeys (by omega)⟩

namespace Sample

theorem call_carrier (i : UInt32) : (∃ p, (Planner.call ⟨device, i⟩ (.build carrier)).1 = .ok p) ∧
    ∃ d, Planner.vpnsOf ⟨device, i⟩ (.build carrier) = [⟨1, d⟩] := by
  obtain ⟨c, hc⟩ : ∃ c, carrier.bucketChain device carrierBucket i = (.ok c, i + 1) := ⟨_, rfl⟩
  refine ⟨⟨_, rfl⟩, ?_⟩
  rcases Objective.vpn_of_bucketChain hc with ⟨-, hindex⟩ | ⟨-, d, hone, -, -, -⟩
  · simp at hindex
  · refine ⟨d, ?_⟩
    change carrier.vpnGroups device [carrierBucket] i = [⟨1, d⟩]
    rw [Objective.vpnGroups_cons [] hc, hone]
    rfl

theorem created_carrier (n : Nat) (i : UInt32) :
    let calls := List.replicate n (Call.build carrier)
    (Planner.created ⟨device, i⟩ calls).length = n ∧ (Planner.plannedVpns ⟨device, i⟩ calls).length = n ∧
      ∀ v ∈ Planner.created ⟨device, i⟩ calls, v.objective = 1 := by
  induction n generalizing i with
  | zero => exact ⟨rfl, rfl, by simp [Planner.created]⟩
  | succ n ih =>
    obtain ⟨⟨p, hp⟩, d, hd⟩ := call_carrier i
    have hplan := Planner.vpnsOf_of_call hp
    have hnext := Planner.call_snd ⟨device, i⟩ (.build carrier)
    rw [hd] at hplan hnext
    obtain ⟨hlength, hplans, hobjective⟩ := ih (i + UInt32.ofNat 1)
    have hcreated : Planner.created ⟨device, i⟩ (List.replicate (n + 1) (.build carrier)) =
        ⟨1, d⟩ :: Planner.created ⟨device, i + UInt32.ofNat 1⟩ (List.replicate n (.build carrier)) := by
      rw [List.replicate_succ, Planner.created, hd, hnext]
      rfl
    have hplanned : Planner.plannedVpns ⟨device, i⟩ (List.replicate (n + 1) (.build carrier)) =
        d :: Planner.plannedVpns ⟨device, i + UInt32.ofNat 1⟩ (List.replicate n (.build carrier)) := by
      have hfirst : ([p].flatMap fun p => p.descriptors.filter Descriptor.isVpn) = [d] := by simpa using hplan
      rw [List.replicate_succ, Planner.plannedVpns, Planner.plans, hp, hnext, List.flatMap_append]
      exact congrArg (· ++ _) hfirst
    refine ⟨?_, ?_, ?_⟩
    · rw [hcreated, List.length_cons, hlength]
    · rw [hplanned, List.length_cons, hplans]
    · rw [hcreated]
      exact List.forall_mem_cons.2 ⟨rfl, hobjective⟩

end Sample

/-- **Two VPN groups under one key.** An objective is built 4097 times, and each plan has a VPN group. The first of
these groups and the last have different ids and the same key. -/
theorem vpn_groups_under_one_key :
    let planner := Planner.fresh Sample.device
    let calls := List.replicate 4097 (Call.build Sample.carrier)
    (planner.created calls).length = 4097 ∧
      ∃ d e, (planner.plannedVpns calls)[0]? = some d ∧ (planner.plannedVpns calls)[4096]? = some e ∧
        d.isVpn = true ∧ d.id ≠ e.id ∧ d.key = e.key := by
  intro planner calls
  obtain ⟨hcreated, hplanned, hobjective⟩ := Sample.created_carrier 4097 0
  have hall : planner.plannedVpns calls = (planner.created calls).map (·.descriptor) := by
    apply (planner.plannedVpns_sublist calls).eq_of_length
    rw [List.length_map]
    exact hplanned.trans hcreated.symm
  have hnumbered := planner.numbered_created calls
  have hget : ∀ n < 4097, ∃ d, (planner.plannedVpns calls)[n]? = some d ∧
      d.id = .mplsL3Vpn (0 + UInt32.ofNat (n + 1)) ∧ d.key = .mplsL3Vpn 1 (0 + UInt32.ofNat (n + 1)) := by
    intro n hn
    have hv := List.getElem?_eq_getElem (l := planner.created calls) (i := n) (hcreated ▸ hn)
    obtain ⟨hid, hkey⟩ := hnumbered.get hv
    rw [hobjective _ (List.mem_of_getElem? hv)] at hkey
    exact ⟨_, by rw [hall, List.getElem?_map, hv]; rfl, hid, hkey⟩
  obtain ⟨d, hd, hdid, hdkey⟩ := hget 0 (by decide)
  obtain ⟨e, he, heid, hekey⟩ := hget 4096 (by decide)
  refine ⟨hcreated, d, e, hd, he, ?_, ?_, ?_⟩
  · rw [Descriptor.isVpn, hdkey]
    decide
  · rw [hdid, heid]
    decide
  · rw [hdkey, hekey]
    decide

end FlowGroups
