/-
How plans are put together. The chain of a bucket has one of three shapes: an interface group, one more group on top of
it, or a VPN group on top of both (`Objective.Makes`). A plan puts the chains of its buckets side by side, and at most
one group on top of all of them (`Plan.Assembles`).

- `composes_of_build`, `composes_of_buildAddBucket`: every plan that is made is of this kind, and the group on top is
  the one that the objective is known by (`Plan.Composes`). So what holds of the chain of each bucket holds of plans.
-/
import Mathlib.Data.List.Forall2
import Mathlib.Data.List.Nodup
import Mathlib.Data.Nat.Init
import Mathlib.Tactic.Common
import FlowGroups.Plan.Build

namespace FlowGroups

/-! ## Lists that belong together -/

section

variable {β γ : Type} {R : β → γ → Prop} {xs : List β} {ys : List γ}

theorem forall₂_exists_right (h : List.Forall₂ R xs ys) : ∀ x ∈ xs, ∃ y ∈ ys, R x y := by
  induction h with
  | nil => simp
  | cons hfirst _ ih =>
    intro x hx
    rcases List.mem_cons.1 hx with rfl | hx
    · exact ⟨_, List.mem_cons_self, hfirst⟩
    · obtain ⟨y, hy, hxy⟩ := ih x hx
      exact ⟨y, List.mem_cons_of_mem _ hy, hxy⟩

theorem forall₂_exists_left (h : List.Forall₂ R xs ys) : ∀ y ∈ ys, ∃ x ∈ xs, R x y :=
  forall₂_exists_right h.flip

theorem forall₂_ne_nil (h : List.Forall₂ R xs ys) (hxs : xs ≠ []) : ys ≠ [] := by
  apply List.ne_nil_of_length_pos
  rw [← h.length_eq]
  exact List.length_pos_of_ne_nil hxs

/-- induction over a list in which each element strikes out some of those behind it -/
theorem filter_induction {motive : List β → Prop} (keep : β → β → Bool) (nil : motive [])
    (cons : ∀ b l, motive (l.filter (keep b)) → motive (b :: l)) (l : List β) : motive l := by
  induction hn : l.length using Nat.strong_induction_on generalizing l with
  | _ n ih =>
    cases l with
    | nil => exact nil
    | cons b l =>
      have hlt := List.length_filter_le (keep b) l
      rw [List.length_cons] at hn
      exact cons b l (ih _ (by omega) _ rfl)

theorem nodup_eraseDups [DecidableEq β] (l : List β) : l.eraseDups.Nodup := by
  induction l using filter_induction fun b c : β => !c == b with
  | nil => simp
  | cons b l ih =>
    rw [List.eraseDups_cons, List.nodup_cons]
    exact ⟨by simp [List.mem_eraseDups], ih⟩

end

theorem Element.mem_after {d : Descriptor} {ks : List Key} {b : Bool} {k : Key} :
    k ∈ (Element.after d ks b).waitOn ↔ k ∈ ks :=
  List.mem_eraseDups

/-- of descriptors with one key some are dropped, but not all -/
theorem Descriptor.mem_distinct (ds : List Descriptor) :
    (∀ d ∈ Descriptor.distinct ds, d ∈ ds) ∧ ∀ d ∈ ds, ∃ e ∈ Descriptor.distinct ds, e.key = d.key := by
  unfold Descriptor.distinct
  induction ds using filter_induction fun d e : Descriptor => (e.key == d.key) = false with
  | nil => simp
  | cons d ds ih =>
    obtain ⟨hsub, hall⟩ := ih
    rw [List.eraseDupsBy_cons]
    refine ⟨fun e he => ?_, fun e he => ?_⟩
    · rcases List.mem_cons.1 he with rfl | he
      · exact List.mem_cons_self
      · exact List.mem_cons_of_mem d (List.mem_filter.1 (hsub e he)).1
    · by_cases hk : d.key = e.key
      · exact ⟨d, List.mem_cons_self, hk⟩
      · rcases List.mem_cons.1 he with rfl | he
        · exact absurd rfl hk
        · obtain ⟨f, hf, hfk⟩ := hall e (List.mem_filter.2 ⟨he, by simpa using Ne.symm hk⟩)
          exact ⟨f, List.mem_cons_of_mem d hf, hfk⟩

/-! ## The chain of a bucket -/

namespace BucketChain

/-- the groups of a bucket, innermost first -/
def groups (c : BucketChain) : List Descriptor := c.inner :: c.elements.map (·.descriptor)

/-- a bucket that needs no more than an interface group -/
def ofGroup (d : Descriptor) : BucketChain := ⟨d, [], d, [d.key]⟩

/-- a bucket that needs one more group on top of its interface group -/
def ofPair (q : Pair) : BucketChain :=
  ⟨q.inner, [.after q.outer [q.inner.key] false], q.outer, [q.outer.key, q.inner.key]⟩

/-- a bucket that needs a third group on top of both -/
def ofLabel (q : Pair) (vpn : Descriptor) : BucketChain :=
  ⟨q.inner, [.after q.outer [q.inner.key] false, .after vpn [q.outer.key] false], vpn,
    [vpn.key, q.outer.key, q.inner.key]⟩

end BucketChain

namespace Objective

variable {o : Objective} {device : DeviceId} {t : Treatment}

/-- the VLAN on which the packets of a bucket leave -/
def outletVlan? (o : Objective) (t : Treatment) : Option VlanId :=
  match o.kind with
  | .broadcast => o.hintedVlan? <|> o.treatments.findSome? Treatment.vlanId?
  | .simple => if t.setsMac then (Split.ofTreatment t o.hintedVlan?).vlan? else t.vlanId? <|> o.hintedVlan?
  | .hashed | .failover => (Split.ofTreatment t o.hintedVlan?).vlan?

/-- is there a group on top of the interface group of a bucket? -/
def stacked (o : Objective) (t : Treatment) : Bool :=
  match o.kind with
  | .simple => t.setsMac
  | .hashed => true
  | .broadcast | .failover => false

theorem outletVlan_of_stacked (h : o.stacked t = true) :
    o.outletVlan? t = (Split.ofTreatment t o.hintedVlan?).vlan? := by
  unfold stacked at h
  unfold outletVlan?
  split at h <;> simp_all

/-- the group that pushes a label and goes on to the group below -/
def vpnGroup (o : Objective) (device : DeviceId) (label : MplsLabel) (below : GroupId) (index : UInt32) : Descriptor :=
  o.descriptor device .indirect [⟨vpnTreatment label below⟩] (Key.mplsL3Vpn o.id index) (GroupId.mplsL3Vpn index)

/-- the ways to make the chain of a bucket -/
inductive Makes (o : Objective) (device : DeviceId) (t : Treatment) : BucketChain → Prop
  | group {d : Descriptor} {port : PortNumber} (flat : o.stacked t = false)
      (made : o.l2Interface device t (o.outletVlan? t) = .ok (d, port)) : Makes o device t (.ofGroup d)
  | pair {q : Pair} (stacked : o.stacked t = true) (plain : o.kind = .hashed → t.mplsPushes = 0)
      (made : o.pair device t false = .ok q) : Makes o device t (.ofPair q)
  | label {q : Pair} {label : MplsLabel} {index : UInt32} (kind : o.kind = .hashed) (pushes : t.mplsPushes = 1)
      (made : o.pair device t true = .ok q) :
      Makes o device t (.ofLabel q (o.vpnGroup device label q.outer.id index))

/-- if there is a group on top of the interface group, an element makes the head of the chain -/
theorem Makes.head_of_stacked {c : BucketChain} (h : o.Makes device t c) (hstacked : o.stacked t = true) :
    ∃ e ∈ c.elements, e.descriptor = c.head := by
  cases h with
  | group hflat _ =>
    rw [hflat] at hstacked
    cases hstacked
  | pair _ _ _ => exact ⟨_, List.mem_cons_self, rfl⟩
  | label _ _ _ => exact ⟨_, List.mem_cons_of_mem _ List.mem_cons_self, rfl⟩

/-- a hashed bucket has two groups, or three, of which the last takes the next index -/
theorem cases_of_bucketChain {i j : UInt32} {c : BucketChain} (h : o.bucketChain device t i = (.ok c, j)) :
    (∃ q, t.mplsPushes = 0 ∧ o.pair device t false = .ok q ∧ c = .ofPair q ∧ j = i) ∨
      ∃ q label, t.mplsPushes = 1 ∧ o.pair device t true = .ok q ∧
        c = .ofLabel q (o.vpnGroup device label q.outer.id (i + 1)) ∧ j = i + 1 := by
  unfold bucketChain at h
  split at h
  · rename_i hnone
    split at h
    · cases h
    · rename_i q hq
      cases h
      exact .inl ⟨q, hnone, hq, rfl, rfl⟩
  · rename_i hone
    split at h
    · cases h
    · cases h
    · rename_i label q _ hq
      cases h
      exact .inr ⟨q, label, hone, hq, rfl, rfl⟩
  · cases h

theorem makes_of_bucketChain {i j : UInt32} {c : BucketChain} (hkind : o.kind = .hashed)
    (h : o.bucketChain device t i = (.ok c, j)) : o.Makes device t c := by
  have hstacked : o.stacked t = true := by simp [stacked, hkind]
  rcases cases_of_bucketChain h with ⟨q, hnone, hq, rfl, -⟩ | ⟨q, label, hone, hq, rfl, -⟩
  · exact .pair hstacked (fun _ => hnone) hq
  · exact .label hkind hone hq

/-- the chains of some buckets, in their order -/
abbrev MakesAll (o : Objective) (device : DeviceId) : List Treatment → List BucketChain → Prop :=
  List.Forall₂ (o.Makes device)

/-- all buckets have chains if the first one has, and those behind it from the index that it leaves -/
theorem bucketChains_cons_eq_ok {ts : List Treatment} {i j : UInt32} {cs : List BucketChain}
    (h : o.bucketChains device (t :: ts) i = (.ok cs, j)) :
    ∃ c k rest, o.bucketChain device t i = (.ok c, k) ∧ o.bucketChains device ts k = (.ok rest, j) ∧
      cs = c :: rest := by
  unfold bucketChains at h
  split at h
  · cases h
  · rename_i c k hc
    split at h
    · cases h
    · rename_i rest j' hrest
      cases h
      exact ⟨c, k, rest, hc, hrest, rfl⟩

/-- all buckets have interface groups if the first one has, for a free port, and those behind it with its port taken -/
theorem floodMembers_cons_eq_ok {vlan : VlanId} {ts : List Treatment} {ports : List PortNumber} {ds : List Descriptor}
    (h : o.floodMembers device vlan (t :: ts) ports = .ok ds) :
    ∃ d port rest, o.l2Interface device t (some vlan) = .ok (d, port) ∧ port ∉ ports ∧
      o.floodMembers device vlan ts (port :: ports) = .ok rest ∧ ds = d :: rest := by
  simp only [floodMembers, bind, Except.bind] at h
  split at h
  · cases h
  · rename_i v hv
    split at h
    · cases h
    · rename_i hport
      split at h
      · cases h
      · rename_i rest hrest
        cases h
        exact ⟨v.1, v.2, rest, hv, hport, hrest, rfl⟩

theorem makes_of_bucketChains {ts : List Treatment} {i j : UInt32} {cs : List BucketChain} (hkind : o.kind = .hashed)
    (h : o.bucketChains device ts i = (.ok cs, j)) : o.MakesAll device ts cs := by
  induction ts generalizing i cs with
  | nil =>
    cases h
    exact .nil
  | cons t ts ih =>
    obtain ⟨c, k, rest, hc, hrest, rfl⟩ := bucketChains_cons_eq_ok h
    exact .cons (makes_of_bucketChain hkind hc) (ih hrest)

theorem makes_of_floodMembers {vlan : VlanId} {ts : List Treatment} {ports : List PortNumber} {ds : List Descriptor}
    (hflat : ∀ t, o.stacked t = false) (hvlan : ∀ t, o.outletVlan? t = some vlan)
    (h : o.floodMembers device vlan ts ports = .ok ds) : o.MakesAll device ts (ds.map BucketChain.ofGroup) := by
  induction ts generalizing ports ds with
  | nil =>
    cases h
    exact .nil
  | cons t ts ih =>
    obtain ⟨d, port, rest, hd, -, hrest, rfl⟩ := floodMembers_cons_eq_ok h
    exact .cons (.group (hflat t) (hvlan t ▸ hd)) (ih hrest)

/-! ## The chains of an objective -/

theorem treatments_of_onlyTreatment (h : o.onlyTreatment = .ok t) : o.treatments = [t] := by
  unfold onlyTreatment at h
  split at h <;> cases h
  assumption

/-- the chain of the only bucket of a simple objective -/
def simpleChain (o : Objective) (device : DeviceId) : Except PlanError BucketChain := do
  let t ← o.onlyTreatment
  if t.setsMac then
    return .ofPair (← o.pair device t false)
  else
    return .ofGroup (← o.l2Interface device t (t.vlanId? <|> o.hintedVlan?)).1

/-- the chains of the buckets of a broadcast objective -/
def floodChains (o : Objective) (device : DeviceId) : Except PlanError (List BucketChain) :=
  match o.hintedVlan? <|> o.treatments.findSome? Treatment.vlanId? with
  | none => .error (.missingVlan o.id)
  | some vlan => (o.floodMembers device vlan o.treatments []).map (·.map BucketChain.ofGroup)

theorem makes_of_simpleChain {c : BucketChain} (hkind : o.kind = .simple) (h : o.simpleChain device = .ok c) :
    o.MakesAll device o.treatments [c] := by
  simp only [simpleChain, bind, Except.bind, pure, Except.pure] at h
  split at h
  · cases h
  · rename_i t ht
    rw [treatments_of_onlyTreatment ht]
    split at h
    · rename_i hmac
      split at h
      · cases h
      · rename_i q hq
        cases h
        exact .cons (.pair (by simp [stacked, hkind, hmac]) (by simp [hkind]) hq) .nil
    · rename_i hmac
      split at h
      · cases h
      · rename_i v hv
        cases h
        have hvlan : o.outletVlan? t = (t.vlanId? <|> o.hintedVlan?) := by simp [outletVlan?, hkind, hmac]
        exact .cons (.group (by simp [stacked, hkind, hmac]) (hvlan ▸ hv)) .nil

theorem makes_of_floodChains {cs : List BucketChain} (hkind : o.kind = .broadcast) (h : o.floodChains device = .ok cs) :
    o.MakesAll device o.treatments cs := by
  unfold floodChains at h
  split at h
  · cases h
  · rename_i vlan hvlan
    cases hds : o.floodMembers device vlan o.treatments [] with
    | error e =>
      rw [hds] at h
      cases h
    | ok ds =>
      rw [hds] at h
      cases h
      refine makes_of_floodMembers (fun t => by simp [stacked, hkind]) (fun t => ?_) hds
      simp only [outletVlan?, hkind, hvlan]

end Objective

/-- the chains that a planner makes for the buckets of an objective -/
def Planner.chains (planner : Planner) (o : Objective) : Except PlanError (List BucketChain) :=
  match o.kind with
  | .simple => (o.simpleChain planner.device).map ([·])
  | .broadcast => o.floodChains planner.device
  | .hashed => (o.bucketChains planner.device o.treatments planner.vpnIndex).1
  | .failover => .error (.unsupportedKind o.id o.kind)

/-- the chains that a planner makes are those of the buckets -/
theorem Planner.makes_of_chains {planner : Planner} {o : Objective} {cs : List BucketChain}
    (h : planner.chains o = .ok cs) : o.MakesAll planner.device o.treatments cs := by
  cases hk : o.kind with
  | simple =>
    simp only [chains, hk] at h
    cases hc : o.simpleChain planner.device with
    | error e =>
      rw [hc] at h
      cases h
    | ok c =>
      rw [hc] at h
      cases h
      exact Objective.makes_of_simpleChain hk hc
  | broadcast =>
    simp only [chains, hk] at h
    exact Objective.makes_of_floodChains hk h
  | hashed =>
    simp only [chains, hk] at h
    exact Objective.makes_of_bucketChains hk (Prod.ext h rfl)
  | failover => simp [chains, hk] at h

/-! ## Whole plans -/

/-- the chains of some buckets side by side, and maybe one group on top of all of them -/
structure Plan.Assembles (p : Plan) (cs : List BucketChain) (crown : List Element) : Prop where
  initial : p.initial = Descriptor.distinct (cs.map (·.inner))
  elements : p.elements = cs.flatMap (·.elements) ++ crown
  chains : p.record.chains = cs.map fun c => crown.map (·.descriptor.key) ++ c.keys
  nonempty : cs ≠ []
  crowned : (crown = [] ∧ ∀ c ∈ cs, c.head.key = p.topKey) ∨
    ∃ top b, crown = [.after top (cs.map (·.head.key)) b] ∧ top.key = p.topKey ∧
      top.buckets = cs.map (Bucket.toGroup ·.head.id)

/-- the top-level key of a hashed or broadcast objective -/
def Objective.topKey (o : Objective) : Key := if o.kind = .broadcast then Key.l2Flood o.id else Key.l3Ecmp o.id

/-- the plan has the chains of the buckets, and on top the group of the objective, to install it or to add to it -/
structure Plan.Composes (o : Objective) (device : DeviceId) (adds : Bool) (p : Plan) (cs : List BucketChain)
    (crown : List Element) : Prop where
  assembles : p.Assembles cs crown
  made : o.MakesAll device o.treatments cs
  objective : p.record.objective = o.id
  top : ∀ e ∈ crown, e.addBucket = adds ∧ e.descriptor.device = device ∧ e.descriptor.key = o.topKey ∧
    e.descriptor.id = p.topId
  /-- a simple objective has no group of its own, and is known by the head of its only chain -/
  bare : crown = [] ↔ o.kind = .simple
  single : crown = [] → ∃ c, cs = [c] ∧ c.head.id = p.topId

namespace Plan

variable {o : Objective} {device : DeviceId} {adds : Bool} {p : Plan} {cs : List BucketChain} {crown : List Element}

namespace Assembles

theorem mem_elements (h : p.Assembles cs crown) {e : Element} :
    e ∈ p.elements ↔ (∃ c ∈ cs, e ∈ c.elements) ∨ e ∈ crown := by
  rw [h.elements, List.mem_append, List.mem_flatMap]

theorem mem_initial (h : p.Assembles cs crown) {d : Descriptor} (hd : d ∈ p.initial) : ∃ c ∈ cs, c.inner = d := by
  rw [h.initial] at hd
  exact List.mem_map.1 ((Descriptor.mem_distinct _).1 d hd)

/-- the bottom of each chain is kept, or another of the same key -/
theorem exists_initial (h : p.Assembles cs crown) {c : BucketChain} (hc : c ∈ cs) :
    ∃ d ∈ p.initial, d.key = c.inner.key := by
  rw [h.initial]
  exact (Descriptor.mem_distinct _).2 c.inner (List.mem_map_of_mem hc)

/-- the group on top, if there is one, waits for the heads of all chains -/
theorem waits_of_mem_crown (h : p.Assembles cs crown) {e : Element} (he : e ∈ crown) :
    e.waitOn.Nodup ∧ (∀ k, k ∈ e.waitOn ↔ ∃ c ∈ cs, c.head.key = k) ∧ e.descriptor.key = p.topKey ∧
      e.descriptor.buckets = cs.map (Bucket.toGroup ·.head.id) := by
  rcases h.crowned with ⟨rfl, -⟩ | ⟨top, b, rfl, htop, hbuckets⟩
  · cases he
  · rw [List.mem_singleton.1 he]
    exact ⟨nodup_eraseDups _, fun k => by rw [Element.mem_after, List.mem_map], htop, hbuckets⟩

/-- the plan is known by the head of its chains, or by the group on top, which waits for all heads -/
theorem bare_or_top (h : p.Assembles cs crown) : (crown = [] ∧ ∀ c ∈ cs, c.head.key = p.topKey) ∨
    ∃ e ∈ p.elements, crown = [e] ∧ e.descriptor.key = p.topKey ∧ ∀ c ∈ cs, c.head.key ∈ e.waitOn := by
  rcases h.crowned with hbare | ⟨top, b, rfl, htop, -⟩
  · exact .inl hbare
  · exact .inr ⟨_, h.mem_elements.2 (.inr (List.mem_singleton_self _)), rfl, htop, fun c hc =>
      Element.mem_after.2 (List.mem_map_of_mem hc)⟩

end Assembles

end Plan

namespace Objective

variable {o : Objective} {device : DeviceId} {p : Plan}

theorem composes_planSimple (hkind : o.kind = .simple) (h : o.planSimple device = .ok p) :
    ∃ c, o.simpleChain device = .ok c ∧ p.Composes o device false [c] [] := by
  simp only [planSimple, bind, Except.bind, pure, Except.pure] at h
  split at h
  · cases h
  · rename_i t ht
    split at h
    · rename_i hmac
      split at h
      · cases h
      · rename_i q hq
        have hchain : o.simpleChain device = .ok (.ofPair q) := by
          simp [simpleChain, ht, hmac, hq, bind, Except.bind, pure, Except.pure]
        cases h
        refine ⟨_, hchain, ⟨?_, makes_of_simpleChain hkind hchain, rfl, by simp, by simp [hkind], ?_⟩⟩
        · exact ⟨rfl, by simp [BucketChain.ofPair], rfl, List.cons_ne_nil _ _, .inl ⟨rfl, by simp [BucketChain.ofPair]⟩⟩
        · exact fun _ => ⟨_, rfl, rfl⟩
    · rename_i hmac
      split at h
      · cases h
      · rename_i v hv
        have hchain : o.simpleChain device = .ok (.ofGroup v.1) := by
          simp only [simpleChain, ht, hmac, hv, bind, Except.bind, pure, Except.pure]
          rfl
        cases h
        refine ⟨_, hchain, ⟨?_, makes_of_simpleChain hkind hchain, rfl, by simp, by simp [hkind], ?_⟩⟩
        · exact ⟨rfl, rfl, rfl, List.cons_ne_nil _ _, .inl ⟨rfl, by simp [BucketChain.ofGroup]⟩⟩
        · exact fun _ => ⟨_, rfl, rfl⟩

theorem composes_planBroadcast (hkind : o.kind = .broadcast) (h : o.planBroadcast device = .ok p) :
    ∃ cs crown, o.floodChains device = .ok cs ∧ p.Composes o device false cs crown := by
  simp only [planBroadcast, bind, Except.bind, pure, Except.pure] at h
  split at h
  · cases h
  · rename_i hsome
    split at h
    · cases h
    · rename_i vlan hvlan
      split at h
      · cases h
      · rename_i ds hds
        have hchains : o.floodChains device = .ok (ds.map BucketChain.ofGroup) := by
          simp [floodChains, hvlan, hds, Except.map]
        have hmade := makes_of_floodChains hkind hchains
        let flood := o.descriptor device .all (ds.map (Bucket.toGroup ·.id)) (Key.l2Flood o.id)
          (GroupId.l2Flood vlan o.id)
        cases h
        refine ⟨_, [.after flood (ds.map (·.key)) false], hchains, ⟨?_, hmade, rfl, ?_, by simp [hkind], by simp⟩⟩
        · refine ⟨?_, ?_, ?_, forall₂_ne_nil hmade (by simpa using hsome), .inr ⟨flood, false, ?_, rfl, ?_⟩⟩ <;>
            simp [BucketChain.ofGroup, Element.after, Function.comp_def, descriptor, flood]
        · simp [Element.after, descriptor, flood, topKey, hkind]

end Objective

namespace Planner

variable {planner : Planner} {o : Objective} {p : Plan}

/-- the ECMP group goes on top of the chains of all buckets -/
theorem composes_planHashed {adds : Bool} (hk : o.kind = .hashed) (hsome : o.treatments ≠ [])
    (h : (planner.planHashed o o.treatments adds).1 = .ok p) :
    ∃ cs crown, planner.chains o = .ok cs ∧ p.Composes o planner.device adds cs crown := by
  unfold planHashed at h
  split at h
  · cases h
  · rename_i cs index hcs
    have hmade := Objective.makes_of_bucketChains hk hcs
    cases h
    let ecmp := o.descriptor planner.device .select (cs.map (Bucket.toGroup ·.head.id)) (Key.l3Ecmp o.id)
      (GroupId.l3Ecmp o.id)
    refine ⟨cs, [.after ecmp (cs.map (·.head.key)) adds], by simp [chains, hk, hcs], ⟨?_, hmade, rfl, ?_, ?_, ?_⟩⟩
    · exact ⟨rfl, rfl, rfl, forall₂_ne_nil hmade hsome, .inr ⟨ecmp, adds, rfl, rfl, rfl⟩⟩
    · simp [Element.after, Objective.descriptor, Objective.topKey, hk, Objective.planEcmp, ecmp]
    · simp [hk]
    · simp

/-- **A plan that installs an objective is put together from the chains of its buckets.** -/
theorem composes_of_build (h : (planner.build o).1 = .ok p) :
    ∃ cs crown, planner.chains o = .ok cs ∧ p.Composes o planner.device false cs crown := by
  cases hk : o.kind with
  | simple =>
    simp only [build, hk] at h
    obtain ⟨c, hc, hcomposes⟩ := Objective.composes_planSimple hk h
    exact ⟨[c], [], by simp [chains, hk, hc, Except.map], hcomposes⟩
  | broadcast =>
    simp only [build, hk] at h
    obtain ⟨cs, crown, hcs, hcomposes⟩ := Objective.composes_planBroadcast hk h
    exact ⟨cs, crown, by simp [chains, hk, hcs], hcomposes⟩
  | hashed =>
    simp only [build, hk] at h
    split at h
    · cases h
    · rename_i hsome
      exact composes_planHashed hk (by simpa using hsome) h
  | failover => simp [build, hk] at h

/-- **A plan that adds a bucket is put together from the chain of this bucket.** -/
theorem composes_of_buildAddBucket (h : (planner.buildAddBucket o).1 = .ok p) :
    o.kind = .hashed ∧ ∃ cs crown, planner.chains o = .ok cs ∧ p.Composes o planner.device true cs crown := by
  unfold buildAddBucket at h
  split at h
  · rename_i hk
    split at h
    · cases h
    · rename_i t ht
      have honly := Objective.treatments_of_onlyTreatment ht
      rw [← honly] at h
      exact ⟨hk, composes_planHashed hk (honly ▸ List.cons_ne_nil t []) h⟩
  · cases h

end Planner

end FlowGroups
