/-
The ECMP group of a hashed objective and the record of the objective, side by side. Both come from the same chains: a
chain gives the group one bucket, which points to the head of the chain, and gives the record the keys of its groups. The
group changes when an element reaches the switch, the record when an objective is completed or a request handled.

- `Unbuilt`: the objective has no record yet, and at most one element is there to create the group.
- `Built`: the chains of the record are those of the group, but for buckets that an element is about to add.
- `Frame`: a change that concerns neither the group nor any record. What does is one of `Unbuilt.created`,
  `Unbuilt.completed`, `Built.acted`, `Built.extended` and `Built.shortened`.
-/
import Mathlib.Data.List.Count
import Mathlib.Data.List.InsertIdx
import Mathlib.Data.List.Perm.Subperm
import FlowGroups.Proofs.Chronicle

namespace FlowGroups

/-! ## Hashed plans -/

/-- the key of the ECMP group, and below it the keys of a chain -/
def BucketChain.path (n : UInt32) (chain : BucketChain) : List Key := Key.l3Ecmp n :: chain.keys

/-- the bucket that leads to a chain -/
def BucketChain.bucket (chain : BucketChain) : Bucket := Bucket.toGroup chain.head.id

/-- the last element of a plan has the ECMP group over some chains: the whole group, or more buckets for it -/
structure Plan.Spreads (n : UInt32) (adds : Bool) (p : Plan) (top : Element) (chains : List BucketChain) : Prop where
  topKey : p.topKey = Key.l3Ecmp n
  elements : ∃ lower, p.elements = lower ++ [top] ∧ ∀ e ∈ lower, e.addBucket = false ∧ e.descriptor.key.level < 3
  key : top.descriptor.key = Key.l3Ecmp n
  adds : top.addBucket = adds
  buckets : top.descriptor.buckets = chains.map BucketChain.bucket
  waits : ∀ chain ∈ chains, chain.head.key ∈ top.waitOn
  paths : p.record.chains = chains.map (BucketChain.path n)
  heads : ∀ chain ∈ chains, chain.head ∈ p.descriptors ∧ chain.keys.head? = some chain.head.key

/-- the plan of a hashed objective ends with the ECMP group, which has the chains of all buckets below it -/
theorem Plan.Composes.spreads {o : Objective} {device : DeviceId} {adds : Bool} {p : Plan} {cs : List BucketChain}
    {crown : List Element} (h : p.Composes o device adds cs crown) (hk : o.kind = .hashed) :
    ∃ top, p.Spreads o.id adds top cs := by
  have hkey : o.topKey = Key.l3Ecmp o.id := by simp [Objective.topKey, hk]
  rcases h.assembles.bare_or_top with ⟨hbare, -⟩ | ⟨top, -, rfl, htop, hheads⟩
  · rw [h.bare.1 hbare] at hk
    cases hk
  obtain ⟨hadds, -, htopKey, -⟩ := h.top top List.mem_cons_self
  obtain ⟨-, -, -, hbuckets⟩ := h.assembles.waits_of_mem_crown (List.mem_singleton_self top)
  rw [hkey] at htopKey
  refine ⟨top, htop.symm.trans htopKey, ⟨_, h.assembles.elements, ?_⟩, htopKey, hadds, hbuckets, hheads, ?_, ?_⟩
  · intro e he
    obtain ⟨c, hc, he⟩ := List.mem_flatMap.1 he
    exact ⟨(h.layered c hc).creates e he, (h.layered c hc).low _ (List.mem_cons_of_mem _ (List.mem_map_of_mem he))⟩
  · rw [h.assembles.chains, List.map_singleton, htopKey]
    rfl
  · intro c hc
    obtain ⟨t, -, hmakes⟩ := forall₂_exists_left h.made c hc
    obtain ⟨e, he, hhead⟩ := hmakes.head_of_stacked (by simp [Objective.stacked, hk])
    refine ⟨?_, (h.layered c hc).topped⟩
    rw [← hhead]
    exact List.mem_append_right _ (List.mem_map_of_mem (h.mem_elements.2 (.inl ⟨c, hc, he⟩)))

namespace Planner

theorem spreads_build {planner : Planner} {o : Objective} {p : Plan} (hk : o.kind = .hashed)
    (h : (planner.build o).1 = .ok p) : ∃ top chains, p.Spreads o.id false top chains := by
  obtain ⟨cs, crown, -, hcomposes⟩ := composes_of_build h
  obtain ⟨top, hspreads⟩ := hcomposes.spreads hk
  exact ⟨top, cs, hspreads⟩

theorem spreads_buildAddBucket {planner : Planner} {o : Objective} {p : Plan}
    (h : (planner.buildAddBucket o).1 = .ok p) : ∃ top chains, p.Spreads o.id true top chains := by
  obtain ⟨hk, cs, crown, -, hcomposes⟩ := composes_of_buildAddBucket h
  obtain ⟨top, hspreads⟩ := hcomposes.spreads hk
  exact ⟨top, cs, hspreads⟩

end Planner

namespace Plan.Spreads

variable {n : UInt32} {adds : Bool} {p : Plan} {top : Element} {chains : List BucketChain}

theorem ne_key {e : Element} (he : e.descriptor.key.level < 3) : e.descriptor.key ≠ Key.l3Ecmp n := by
  intro hk
  rw [hk, Key.level_l3Ecmp] at he
  exact Nat.lt_irrefl 3 he

/-- no other element of the plan has the ECMP group -/
theorem filter_elements (h : p.Spreads n adds top chains) :
    (p.elements.filter fun e => e.descriptor.key = Key.l3Ecmp n) = [top] := by
  obtain ⟨lower, helements, hlower⟩ := h.elements
  have hnone : (lower.filter fun e => e.descriptor.key = Key.l3Ecmp n) = [] := by
    rw [List.filter_eq_nil_iff]
    intro e he
    simpa using ne_key (hlower e he).2
  rw [helements, List.filter_append, hnone, List.nil_append, List.filter_singleton]
  simp [h.key]

/-- an element that has another group creates it -/
theorem creates (h : p.Spreads n adds top chains) {e : Element} (he : e ∈ p.elements)
    (hk : e.descriptor.key ≠ Key.l3Ecmp n) : e.addBucket = false := by
  obtain ⟨lower, helements, hlower⟩ := h.elements
  rw [helements, List.mem_append, List.mem_singleton] at he
  rcases he with he | rfl
  · exact (hlower e he).1
  · exact absurd h.key hk

end Plan.Spreads

/-! ## Groups of accepted plans -/

/-- the group belongs to the plan of a request -/
def Described (acc : List Request) (d : Descriptor) : Prop := ∃ r ∈ acc, ∃ p, r.plan? = some p ∧ d ∈ p.descriptors

/-- the group belongs to the plan of a request, and its key stands second in one of the chains -/
def Leads (acc : List Request) (d : Descriptor) : Prop :=
  ∃ r ∈ acc, ∃ p, r.plan? = some p ∧ d ∈ p.descriptors ∧ ∃ path ∈ p.record.chains, path[1]? = some d.key

/-- whatever group has the key of a group that stands second in a chain has its id too -/
def Unambiguous (acc : List Request) : Prop := ∀ d e, Leads acc d → Described acc e → e.key = d.key → e.id = d.id

theorem Leads.mono {acc acc' : List Request} {d : Descriptor} (h : Leads acc d) (hsub : ∀ r ∈ acc, r ∈ acc') :
    Leads acc' d := by
  obtain ⟨r, hr, hd⟩ := h
  exact ⟨r, hsub r hr, hd⟩

theorem Described.mono {acc acc' : List Request} {d : Descriptor} (h : Described acc d) (hsub : ∀ r ∈ acc, r ∈ acc') :
    Described acc' d := by
  obtain ⟨r, hr, hd⟩ := h
  exact ⟨r, hsub r hr, hd⟩

theorem Unambiguous.anti {acc acc' : List Request} (h : Unambiguous acc') (hsub : ∀ r ∈ acc, r ∈ acc') :
    Unambiguous acc :=
  fun d e hd he => h d e (hd.mono hsub) (he.mono hsub)

/-- the chain belongs to the plan of a request -/
def BucketChain.Led (acc : List Request) (chain : BucketChain) : Prop :=
  Leads acc chain.head ∧ chain.keys.head? = some chain.head.key

theorem Plan.Spreads.led {acc : List Request} {n : UInt32} {adds : Bool} {p : Plan} {top : Element}
    {chains : List BucketChain} (h : p.Spreads n adds top chains) {r : Request} (hr : r ∈ acc) (hp : r.plan? = some p) :
    ∀ chain ∈ chains, chain.Led acc := by
  intro chain hchain
  obtain ⟨hmem, hhead⟩ := h.heads chain hchain
  have hpath : chain.path n ∈ p.record.chains := h.paths ▸ List.mem_map_of_mem hchain
  refine ⟨⟨r, hr, p, hp, hmem, _, hpath, ?_⟩, hhead⟩
  rw [BucketChain.path, List.getElem?_cons_succ, ← List.head?_eq_getElem?, hhead]

/-! ## Elements of the ECMP group -/

/-- the elements that are queued or wait, and whose group is the one under a key -/
def Controller.concerning (c : Controller) (ws : List Work) (k : Key) : List Element :=
  (elementsOf ws ++ c.tracker.elements).filter fun e => e.descriptor.key = k

theorem joining_eq_nil {deferred : Registry UInt32 Addition} (h : ∀ n, deferred.get? n = none) (rs : List Registrant) :
    joining deferred rs = [] := by
  induction rs with
  | nil => rfl
  | cons r rs ih => simp only [joining, h, ih]

namespace Controller

variable {c d : Controller} {ws vs : List Work} {k : Key}

theorem concerning_congr (ht : d.tracker.elements = c.tracker.elements) (hw : elementsOf vs = elementsOf ws) :
    d.concerning vs k = c.concerning ws k := by
  rw [concerning, concerning, ht, hw]

theorem concerning_element {e : Element} (h : e.descriptor.key = k) :
    c.concerning (.element e :: ws) k = e :: c.concerning ws k := by
  rw [concerning, elementsOf_cons, concerning]
  simp [Work.element?, h]

/-- an item of work takes its own element from those that concern a key, and no other -/
theorem concerning_process (h : ∀ n, c.deferred.get? n = none) (w : Work) :
    (c.concerning (w :: ws) k).Perm ((w.element?.toList.filter fun e => e.descriptor.key = k) ++
      (c.process w).1.concerning (ws ++ (c.process w).2) k) := by
  have hnone : w.registers c = [] := by
    cases w with
    | resolve j =>
      simp only [Work.registers]
      split
      · exact joining_eq_nil h _
      · rfl
    | _ => rfl
  have hp := c.perm_process w
  rw [hnone, List.nil_append] at hp
  have hall : (elementsOf (w :: ws) ++ c.tracker.elements).Perm
      (w.element?.toList ++ (elementsOf (ws ++ (c.process w).2) ++ (c.process w).1.tracker.elements)) := by
    rw [elementsOf_cons, elementsOf_append, List.append_assoc, List.append_assoc]
    exact (hp.symm.append_left _).append_left _
  rw [concerning, concerning, ← List.filter_append]
  exact hall.filter _

end Controller

/-! ## Before and after the objective is recorded -/

structure Unbuilt (device : DeviceId) (n : UInt32) (p : Plan) (top : Element) (c : Controller) (ws : List Work) :
    Prop where
  store : c.store.get n = .ok none
  failed : ∀ reply ∈ c.replies, ∃ e, reply.outcome = .failed e
  single : (c.concerning ws (Key.l3Ecmp n)).length ≤ 1
  creates : ∀ e ∈ c.concerning ws (Key.l3Ecmp n), e = top
  unknown : c.concerning ws (Key.l3Ecmp n) ≠ [] → ¬c.switch.Knows (device, Key.l3Ecmp n) ∧ Key.l3Ecmp n ∉ c.requested
  buckets : c.switch.All fun place d => place = (device, Key.l3Ecmp n) → d.buckets = top.descriptor.buckets
  below : c.switch.Knows (device, Key.l3Ecmp n) → ∀ k ∈ top.waitOn, c.Stands k
  exclusive : c.switch.Exclusive (device, Key.l3Ecmp n)
  registered : ∀ k rs, c.tracker.objectives.get? k = some rs → k = Key.l3Ecmp n ∧ ∀ r ∈ rs.list, r.record = p.record

structure Built (device : DeviceId) (n : UInt32) (acc : List Request) (c : Controller) (ws : List Work)
    (record : Record) (chains : List BucketChain) : Prop where
  store : c.store.get n = .ok (some record)
  own : record.objective = n
  fits : record.Fits
  paths : record.chains = chains.map (BucketChain.path n)
  led : ∀ chain ∈ chains, chain.Led acc
  group : ∃ d, c.switch.installed.get? (device, Key.l3Ecmp n) = some d ∧
    d.buckets ++ (c.concerning ws (Key.l3Ecmp n)).flatMap (·.descriptor.buckets) = chains.map BucketChain.bucket
  unheld : c.switch.requested.get? (device, Key.l3Ecmp n) = none
  single : (c.concerning ws (Key.l3Ecmp n)).length ≤ 1
  adds : ∀ e ∈ c.concerning ws (Key.l3Ecmp n), e.addBucket = true
  below : ∀ chain ∈ chains, c.Stands chain.head.key ∨ ∃ e ∈ c.concerning ws (Key.l3Ecmp n), chain.head.key ∈ e.waitOn
  unregistered : ∀ k, c.tracker.objectives.get? k = none

/-- a change that leaves the group under a key and all records alone -/
structure Frame (device : DeviceId) (k : Key) (c d : Controller) : Prop where
  store : d.store = c.store
  stands : ∀ j, c.Stands j → d.Stands j
  installed : d.switch.installed.get? (device, k) = c.switch.installed.get? (device, k)
  held : d.switch.requested.get? (device, k) = c.switch.requested.get? (device, k)
  requested : k ∈ d.requested → k ∈ c.requested
  replies : ∀ reply ∈ d.replies, reply ∈ c.replies ∨ ∃ e, reply.outcome = .failed e
  objectives : ∀ j rs, d.tracker.objectives.get? j = some rs → c.tracker.objectives.get? j = some rs

namespace Frame

variable {device : DeviceId} {k : Key} {c d : Controller}

theorem of_switch (hd : d.device = c.device) (hs : d.switch = c.switch) (hstore : d.store = c.store)
    (hr : ∀ j ∈ d.requested, j ∈ c.requested)
    (hreplies : ∀ reply ∈ d.replies, reply ∈ c.replies ∨ ∃ e, reply.outcome = .failed e)
    (ho : ∀ j rs, d.tracker.objectives.get? j = some rs → c.tracker.objectives.get? j = some rs) :
    Frame device k c d := by
  refine ⟨hstore, fun j hj => ?_, by rw [hs], by rw [hs], hr k, hreplies, ho⟩
  rw [Controller.Stands, hd, hs]
  exact hj

theorem refl (c : Controller) : Frame device k c c :=
  .of_switch rfl rfl rfl (fun _ h => h) (fun _ h => Or.inl h) fun _ _ h => h

/-- another group is asked for -/
theorem submit {f : Descriptor} (hf : f.key ≠ k) : Frame device k c (c.submit f).1 := by
  have hplace : ((device, k) : Place) ≠ (f.device, f.key) := fun h => hf (congrArg Prod.snd h).symm
  rcases c.submit_cases f with ⟨-, he⟩ | ⟨-, he⟩ | he
  · rw [he]
    exact .refl c
  · rw [he]
    exact .refl c
  · obtain ⟨hinstalled, hheld⟩ := Switch.get?_addGroup_of_ne c.switch hplace
    rw [he]
    refine ⟨rfl, fun j hj => Controller.stands_asked hj, hinstalled, hheld, fun hk => ?_, fun _ h => Or.inl h,
      fun _ _ h => h⟩
    exact (List.mem_cons.1 hk).resolve_left (Ne.symm hf)

theorem refused (c : Controller) (ticket : Ticket) (e : ObjectiveError) (stop : Bool) :
    Frame device k c (c.refused ticket e stop) := by
  refine .of_switch rfl rfl rfl (fun _ h => h) (fun reply hreply => ?_) fun _ _ h => h
  rcases List.mem_append.1 hreply with hreply | hreply
  · exact Or.inl hreply
  · exact Or.inr ⟨e, congrArg Reply.outcome (List.mem_singleton.1 hreply)⟩

theorem knows (h : Frame device k c d) : d.switch.Knows (device, k) ↔ c.switch.Knows (device, k) := by
  rw [Switch.Knows, Switch.Stands, Switch.Holds, h.installed, h.held]
  exact Iff.rfl

end Frame

section Stages

variable {device : DeviceId} {n : UInt32} {acc acc' : List Request} {p : Plan} {top : Element} {c d : Controller}
  {ws vs : List Work} {record : Record} {chains : List BucketChain}

theorem Unbuilt.frame (h : Unbuilt device n p top c ws) (hf : Frame device (Key.l3Ecmp n) c d)
    (hc : (d.concerning vs (Key.l3Ecmp n)).Subperm (c.concerning ws (Key.l3Ecmp n))) : Unbuilt device n p top d vs := by
  refine ⟨hf.store ▸ h.store, ?_, hc.length_le.trans h.single, fun e he => h.creates e (hc.subset he), ?_, ?_, ?_, ?_,
    ?_⟩
  · intro reply hreply
    exact (hf.replies reply hreply).elim (h.failed reply) id
  · intro hne
    obtain ⟨e, he⟩ := List.exists_mem_of_ne_nil _ hne
    obtain ⟨hknows, hrequested⟩ := h.unknown (List.ne_nil_of_mem (hc.subset he))
    exact ⟨fun hk => hknows (hf.knows.1 hk), fun hr => hrequested (hf.requested hr)⟩
  · rintro place e he rfl
    rw [hf.installed, hf.held] at he
    exact h.buckets _ e he rfl
  · intro hk j hj
    exact hf.stands j (h.below (hf.knows.1 hk) j hj)
  · intro hs
    rw [Switch.Stands, hf.installed] at hs
    rw [hf.held]
    exact h.exclusive hs
  · intro j rs hj
    exact h.registered j rs (hf.objectives j rs hj)

theorem Built.frame (h : Built device n acc c ws record chains) (hf : Frame device (Key.l3Ecmp n) c d)
    (hc : (d.concerning vs (Key.l3Ecmp n)).Perm (c.concerning ws (Key.l3Ecmp n))) (hsub : ∀ r ∈ acc, r ∈ acc') :
    Built device n acc' d vs record chains := by
  obtain ⟨e, he, hbuckets⟩ := h.group
  -- at most one element is on its way, so its place in the list does not matter
  have hsame : d.concerning vs (Key.l3Ecmp n) = c.concerning ws (Key.l3Ecmp n) := by
    have hsingle := h.single
    cases hl : c.concerning ws (Key.l3Ecmp n) with
    | nil => exact List.perm_nil.1 (hl ▸ hc)
    | cons f fs =>
      rw [hl, List.length_cons] at hsingle
      obtain rfl : fs = [] := List.eq_nil_of_length_eq_zero (by omega)
      exact List.perm_singleton.1 (hl ▸ hc)
  refine ⟨hf.store ▸ h.store, h.own, h.fits, h.paths, fun chain hchain => ?_,
    ⟨e, hf.installed.trans he, by rw [hsame, hbuckets]⟩, hf.held.trans h.unheld, hsame ▸ h.single, hsame ▸ h.adds, ?_, ?_⟩
  · exact ⟨(h.led chain hchain).1.mono hsub, (h.led chain hchain).2⟩
  · intro chain hchain
    rw [hsame]
    exact (h.below chain hchain).imp_left (hf.stands _)
  · intro k
    rw [Option.eq_none_iff_forall_ne_some]
    intro rs hrs
    have hfound := hf.objectives k rs hrs
    rw [h.unregistered k] at hfound
    cases hfound

end Stages

/-! ## What changes the group or the record -/

section Changes

variable {device : DeviceId} {n : UInt32} {acc acc' : List Request} {p : Plan} {top : Element} {c : Controller}
  {ws vs : List Work} {record : Record} {chains : List BucketChain}

/-- an element of the ECMP group is the only one there -/
theorem Controller.concerning_eq_nil {e : Element} (hkey : e.descriptor.key = Key.l3Ecmp n)
    (hsingle : (c.concerning (.element e :: ws) (Key.l3Ecmp n)).length ≤ 1) : c.concerning ws (Key.l3Ecmp n) = [] := by
  rw [Controller.concerning_element hkey, List.length_cons] at hsingle
  exact List.eq_nil_of_length_eq_zero (by omega)

/-- the element that creates the group is acted on, and nobody else will -/
theorem Unbuilt.created (h : Unbuilt device n p top c (.element top :: ws)) (hdevice : c.device = device)
    (hhome : top.descriptor.device = device) (hkey : top.descriptor.key = Key.l3Ecmp n)
    (hw : ∀ k ∈ top.waitOn, c.Stands k) :
    Unbuilt device n p top (c.submit top.descriptor).1 (ws ++ (c.submit top.descriptor).2) := by
  obtain ⟨hunknown, hrequested⟩ := h.unknown (Controller.concerning_element hkey ▸ List.cons_ne_nil _ _)
  have hsubmit : c.submit top.descriptor = (c.asked top.descriptor, []) := by
    rcases c.submit_cases top.descriptor with ⟨hr, -⟩ | ⟨hs, -⟩ | he
    · exact absurd (hkey ▸ hr) hrequested
    · rw [Controller.Stands, hdevice, hkey] at hs
      exact absurd (Or.inl hs) hunknown
    · exact he
  have hnone : (c.asked top.descriptor).concerning ws (Key.l3Ecmp n) = [] := Controller.concerning_eq_nil hkey h.single
  have hplace : ((top.descriptor.device, top.descriptor.key) : Place) = (device, Key.l3Ecmp n) := by rw [hhome, hkey]
  rw [hsubmit, List.append_nil]
  refine ⟨h.store, h.failed, ?_, ?_, fun hne => absurd hnone hne, h.buckets.addGroup fun _ => rfl, ?_, ?_, h.registered⟩
  · rw [hnone]
    exact Nat.zero_le 1
  · rw [hnone]
    exact fun e he => absurd he List.not_mem_nil
  · intro _ k hk
    exact Controller.stands_asked (hw k hk)
  · intro hs
    have hunheld : c.switch.requested.get? (device, Key.l3Ecmp n) = none :=
      Option.eq_none_iff_forall_ne_some.2 fun d hd => hunknown (Or.inr ⟨d, hd⟩)
    simp only [Controller.asked, Switch.addGroup] at hs ⊢
    split_ifs at hs ⊢
    · exact hunheld
    · exact absurd (Or.inl hs) hunknown

/-- the element that adds buckets is acted on, and the group has the buckets of the record -/
theorem Built.acted {e : Element} (h : Built device n acc c (.element e :: ws) record chains)
    (hhome : e.descriptor.device = device) (hkey : e.descriptor.key = Key.l3Ecmp n)
    (hw : ∀ k ∈ e.waitOn, c.Stands k) :
    Built device n acc
      { c with switch := c.switch.addBuckets e.descriptor.device e.descriptor.key e.descriptor.buckets } ws record
      chains := by
  let c' : Controller :=
    { c with switch := c.switch.addBuckets e.descriptor.device e.descriptor.key e.descriptor.buckets }
  have hnone : c'.concerning ws (Key.l3Ecmp n) = [] := Controller.concerning_eq_nil (c := c) hkey h.single
  have hconcerning : c.concerning (.element e :: ws) (Key.l3Ecmp n) = [e] :=
    (Controller.concerning_element hkey).trans (congrArg (e :: ·) hnone)
  obtain ⟨d, hd, hbuckets⟩ := h.group
  rw [hconcerning, List.flatMap_singleton] at hbuckets
  rw [← hhome, ← hkey] at hd
  obtain ⟨hinstalled, hheld⟩ := Switch.get?_editBuckets (s := c.switch.log (.addBuckets e.descriptor.key
    e.descriptor.buckets)) (f := (· ++ e.descriptor.buckets)) hd
  have hextended : c'.switch.installed.get? (device, Key.l3Ecmp n) =
      some { d with buckets := d.buckets ++ e.descriptor.buckets } := by
    rw [← hkey, ← hhome]
    exact hinstalled
  refine ⟨h.store, h.own, h.fits, h.paths, h.led, ⟨_, hextended, ?_⟩, ?_, ?_, ?_, ?_, h.unregistered⟩
  · rw [hnone, List.flatMap_nil, List.append_nil]
    exact hbuckets
  · exact (congrArg (·.get? (device, Key.l3Ecmp n)) hheld).trans h.unheld
  · rw [hnone]
    exact Nat.zero_le 1
  · rw [hnone]
    exact fun f hf => absurd hf List.not_mem_nil
  · intro chain hchain
    refine Or.inl (((c.same_editBuckets _ _ _ _).stands _).2 ?_)
    rcases h.below chain hchain with hs | ⟨f, hf, hwait⟩
    · exact hs
    · rw [hconcerning] at hf
      rw [List.mem_singleton.1 hf] at hwait
      exact hw _ hwait

/-- objectives with one record are completed, and no bucket was put aside: either none was there, or it is recorded -/
theorem Controller.completeAll_recorded (hdeferred : ∀ m, c.deferred.get? m = none) {k : Key} {rs : List Registrant}
    (hrecords : ∀ r ∈ rs, r.record = record) (hrecord : record.objective = n ∧ record.Fits) :
    let d := (c.completeAll k rs).1
    d.device = c.device ∧ d.switch = c.switch ∧ d.tracker = c.tracker ∧ d.requested = c.requested ∧
      ((d.store = c.store ∧ d.replies = c.replies) ∨ d.store.get n = .ok (some record)) := by
  have hall := completeAll_keeps (k := k) (c := c) (P := fun out d _ =>
    ((d.device = c.device ∧ d.switch = c.switch ∧ d.tracker = c.tracker ∧ d.requested = c.requested) ∧
      d.deferred = c.deferred ∧ ∀ r ∈ out, r.record = record) ∧
      ((d.store = c.store ∧ d.replies = c.replies) ∨ d.store.get n = .ok (some record))) ?_
    ⟨⟨⟨rfl, rfl, rfl, rfl⟩, rfl, hrecords⟩, Or.inl ⟨rfl, rfl⟩⟩
  · obtain ⟨⟨⟨hd, hs, ht, hr⟩, -⟩, hstored⟩ := hall
    exact ⟨hd, hs, ht, hr, hstored⟩
  · rintro r out d - ⟨⟨hsame, hdef, hout⟩, -⟩
    rcases d.complete_cases k r with ⟨a, ha, -⟩ | ⟨-, he⟩
    · rw [hdef, hdeferred] at ha
      cases ha
    · rw [he]
      refine ⟨⟨hsame, hdef, fun q hq => hout q (List.mem_cons_of_mem r hq)⟩, Or.inr ?_⟩
      rw [recorded, hout r List.mem_cons_self, Store.get_put hrecord.2, if_pos hrecord.1.symm]

/-- a group that stands has been created with the buckets of its chains, so only the record is missing -/
theorem Unbuilt.built (h : Unbuilt device n p top c ws) (hp : p.Spreads n false top chains)
    (hled : ∀ chain ∈ chains, chain.Led acc) (hrecord : p.record.objective = n ∧ p.record.Fits)
    (hstands : c.switch.Stands (device, Key.l3Ecmp n)) {d : Controller} (hd : d.device = c.device)
    (hs : d.switch = c.switch) (hstored : d.store.get n = .ok (some p.record))
    (hregistered : ∀ j, d.tracker.objectives.get? j = none)
    (hc : (d.concerning vs (Key.l3Ecmp n)).Perm (c.concerning ws (Key.l3Ecmp n))) :
    Built device n acc d vs p.record chains := by
  -- the one element that creates the group has been acted on
  have hnone : d.concerning vs (Key.l3Ecmp n) = [] := by
    by_contra hne
    exact (h.unknown fun hnil => hne (List.perm_nil.1 (hnil ▸ hc))).1 (Or.inl hstands)
  have hexclusive := h.exclusive hstands
  obtain ⟨e, hinstalled⟩ := hstands
  refine ⟨hstored, hrecord.1, hrecord.2, hp.paths, hled, ⟨e, hs ▸ hinstalled, ?_⟩, hs ▸ hexclusive, ?_, ?_, ?_,
    hregistered⟩
  · rw [hnone, List.flatMap_nil, List.append_nil, h.buckets _ e (Or.inl hinstalled) rfl, hp.buckets]
  · rw [hnone]
    exact Nat.zero_le 1
  · rw [hnone]
    exact fun f hf => absurd hf List.not_mem_nil
  · intro chain hchain
    refine Or.inl ?_
    rw [Controller.Stands, hd, hs]
    exact h.below (Or.inl ⟨e, hinstalled⟩) _ (hp.waits chain hchain)

/-- the objective is recorded, once its group stands -/
theorem Unbuilt.completed {ticket : Ticket} {o : Objective} (h : Unbuilt device n p top c ws)
    (hdevice : c.device = device) (hp : p.Spreads n false top chains) (hr : .install ticket o p ∈ acc)
    (hrecord : p.record.objective = n ∧ p.record.Fits) {k : Key} (hk : c.Stands k) {rs : Registrants}
    (ho : c.tracker.objectives.get? k = some rs) (hdeferred : ∀ m, c.deferred.get? m = none)
    (hconfirm : c.confirm k = { c.release k with tracker := c.tracker.discharge k }.completeAll k rs.list)
    (hc : ((c.confirm k).1.concerning vs (Key.l3Ecmp n)).Perm (c.concerning ws (Key.l3Ecmp n))) :
    Unbuilt device n p top (c.confirm k).1 vs ∨ Built device n acc (c.confirm k).1 vs p.record chains := by
  obtain ⟨rfl, hrecords⟩ := h.registered k rs ho
  obtain ⟨hd, hs, ht, hrequested, hstored⟩ := Controller.completeAll_recorded (k := Key.l3Ecmp n)
    (c := { c.release (Key.l3Ecmp n) with tracker := c.tracker.discharge (Key.l3Ecmp n) }) hdeferred hrecords hrecord
  rw [← hconfirm] at hd hs ht hrequested hstored
  have hobjectives : ∀ j rs, (c.confirm (Key.l3Ecmp n)).1.tracker.objectives.get? j = some rs →
      j ≠ Key.l3Ecmp n ∧ c.tracker.objectives.get? j = some rs := by
    intro j rs hj
    rw [ht] at hj
    exact Registry.of_get?_erase hj
  rcases hstored with ⟨hstore, hreplies⟩ | hstored
  · have hreleased : ∀ j ∈ (c.confirm (Key.l3Ecmp n)).1.requested, j ∈ c.requested := fun j hj =>
      List.mem_of_mem_filter (hrequested ▸ hj)
    exact Or.inl (h.frame (.of_switch hd hs hstore hreleased (fun _ hm => Or.inl (hreplies ▸ hm)) fun j rs hj =>
      (hobjectives j rs hj).2) hc.subperm)
  · rw [Controller.Stands, hdevice] at hk
    refine Or.inr (h.built hp (hp.led hr rfl) hrecord hk hd hs hstored (fun j => ?_) hc)
    rw [Option.eq_none_iff_forall_ne_some]
    intro rs hrs
    obtain ⟨hne, hj⟩ := hobjectives j rs hrs
    exact hne (h.registered j rs hj).1

/-- chains are added to the record, and an element will add their buckets to the group -/
theorem Built.extended {a : Addition} {more : List BucketChain} (h : Built device n acc c [] record chains)
    (hquiet : c.tracker.elements = []) (hp : a.plan.Spreads n true top more) (hfits : a.plan.record.Fits)
    (ha : .addBucket a ∈ acc') (hsub : ∀ r ∈ acc, r ∈ acc') :
    Built device n acc' (c.extend record a).1 (c.extend record a).2 (record.append a.plan.record) (chains ++ more) := by
  have hquiet' : c.concerning [] (Key.l3Ecmp n) = [] := by rw [Controller.concerning, hquiet]; rfl
  have hone : (c.extend record a).1.concerning (c.extend record a).2 (Key.l3Ecmp n) = [top] := by
    have hperm := (c.perm_extend record a).filter fun e => e.descriptor.key = Key.l3Ecmp n
    rw [hquiet, List.append_nil, hp.filter_elements] at hperm
    exact List.perm_singleton.1 hperm
  obtain ⟨d, hd, hbuckets⟩ := h.group
  rw [hquiet', List.flatMap_nil, List.append_nil] at hbuckets
  have hall : (record.append a.plan.record).Fits := h.fits.append hfits
  refine ⟨?_, h.own, hall, ?_, ?_, ?_, ?_, by rw [hone]; exact Nat.le_refl 1, ?_, ?_, ?_⟩
  · rw [Controller.extend_eq]
    exact (Store.get_put hall _ _).trans (if_pos h.own.symm)
  · rw [Record.append, h.paths, hp.paths, List.map_append]
  · intro chain hchain
    rcases List.mem_append.1 hchain with hchain | hchain
    · exact ⟨(h.led chain hchain).1.mono hsub, (h.led chain hchain).2⟩
    · exact hp.led ha rfl chain hchain
  · refine ⟨d, ?_, ?_⟩
    · rw [Controller.extend_eq]
      exact hd
    · rw [hone, List.flatMap_singleton, hbuckets, hp.buckets, List.map_append]
  · rw [Controller.extend_eq]
    exact h.unheld
  · intro e he
    rw [hone] at he
    rw [List.mem_singleton.1 he]
    exact hp.adds
  · intro chain hchain
    rw [hone]
    rcases List.mem_append.1 hchain with hchain | hchain
    · rcases h.below chain hchain with hs | ⟨e, he, -⟩
      · refine Or.inl ?_
        rw [Controller.extend_eq]
        exact hs
      · rw [hquiet'] at he
        cases he
    · exact Or.inr ⟨top, List.mem_singleton.2 rfl, hp.waits chain hchain⟩
  · intro k
    rw [Controller.extend_eq]
    exact (congrArg (·.get? k) (Tracker.objectives_registerAll _ _ _)).trans (h.unregistered k)

/-! ## Removing a bucket -/

/-- an entry that occurs once is filtered out where it stands -/
theorem filter_ne_eq_eraseIdx {β : Type} [DecidableEq β] {l : List β} {i : Nat} {b : β} (hi : l[i]? = some b)
    (hone : l.count b = 1) : (l.filter fun x => x ∉ [b]) = l.eraseIdx i := by
  induction l generalizing i with
  | nil => cases hi
  | cons x l ih =>
    by_cases hx : x = b
    · subst hx
      rw [List.count_cons_self] at hone
      have hnot : x ∉ l := List.count_eq_zero.1 (by omega)
      have hrest : (l.filter fun y => y ∉ [x]) = l := by
        rw [List.filter_eq_self]
        intro y hy
        simpa using ne_of_mem_of_not_mem hy hnot
      cases i with
      | zero => simpa using hrest
      | succ i =>
        rw [List.getElem?_cons_succ] at hi
        exact absurd (List.mem_of_getElem? hi) hnot
    · rw [List.count_cons_of_ne hx] at hone
      cases i with
      | zero => exact absurd (Option.some.inj hi) hx
      | succ i => rw [List.filter_cons_of_pos (by simpa using hx), ih hi hone, List.eraseIdx_cons_succ]

theorem Bucket.toGroup_injective : Function.Injective Bucket.toGroup := by
  intro a b hab
  injection hab with hab
  injection hab with hab
  injection hab with hab
  injection hab

/-- a chain whose head is no other's goes together with its bucket -/
theorem BucketChain.filter_buckets {i : Nat} {chain : BucketChain} (hi : chains[i]? = some chain)
    (hone : (chains.map (·.head.id)).count chain.head.id = 1) :
    ((chains.map BucketChain.bucket).filter fun b => b ∉ [Bucket.toGroup chain.head.id]) =
      (chains.eraseIdx i).map BucketChain.bucket := by
  have hids : chains.map BucketChain.bucket = (chains.map (·.head.id)).map Bucket.toGroup := by
    rw [List.map_map]
    rfl
  rw [← List.eraseIdx_map]
  refine filter_ne_eq_eraseIdx ?_ ?_
  · rw [List.getElem?_map, hi]
    rfl
  · rw [hids, List.count_map_of_injective _ _ Bucket.toGroup_injective, hone]

namespace Controller

/-- the ids of the groups that stand second in the chains of a record -/
def secondIds (c : Controller) (record : Record) : List (Option GroupId) :=
  record.chains.map fun path => (path[1]?.bind c.group?).map (·.id)

/-- what is found is the group that stands second in a chain -/
theorem of_findChain? {c : Controller} {port : PortNumber} {record : Record} {i : Nat} {id : GroupId}
    (h : c.findChain? port record.chains = some (i, id)) : (c.secondIds record)[i]? = some (some id) := by
  rw [secondIds]
  generalize record.chains = paths at h
  induction paths generalizing i with
  | nil => cases h
  | cons path paths ih =>
    rw [findChain?] at h
    split_ifs at h
    · split at h
      · rename_i d hd
        cases h
        rw [List.map_cons, List.getElem?_cons_zero, hd, Option.map_some]
      · cases h
    · obtain ⟨⟨j, id'⟩, hj, he⟩ := Option.map_eq_some_iff.1 h
      cases he
      exact ih hj

theorem removeBucket_eq {c : Controller} {ticket : Ticket} {o : Objective} {port : PortNumber} {record : Record}
    {i : Nat} {id : GroupId} {top : Key} (hs : c.store.get o.id = .ok (some record))
    (hf : c.findChain? port record.chains = some (i, id)) (ht : record.chains[i]?.bind List.head? = some top) :
    c.removeBucket ticket o port =
      { c with
        switch := c.switch.removeBuckets c.device top [Bucket.toGroup id]
        store := c.store.put { record with chains := record.chains.eraseIdx i }
        replies := c.replies ++ [⟨ticket, .installed (((c.group? top).map (·.id)).getD (GroupId.l3Ecmp o.id))⟩] } := by
  simp only [removeBucket, hs, hf, ht, reply]

end Controller

/-- every group that is known has the key and the id of a group of an accepted plan -/
def Switch.Traced (device : DeviceId) (acc : List Request) (s : Switch) : Prop :=
  s.All fun place d => place = (device, d.key) ∧ ∃ e, Described acc e ∧ e.key = d.key ∧ e.id = d.id

/-- where nothing is on its way, the groups that stand second in the record are those that the buckets point to -/
theorem Built.secondIds (h : Built device n acc c ws record chains) (htraced : c.switch.Traced device acc)
    (hu : Unambiguous acc) (hnone : c.concerning ws (Key.l3Ecmp n) = []) :
    c.secondIds record = (chains.map (·.head.id)).map some := by
  rw [Controller.secondIds, h.paths, List.map_map, List.map_map]
  refine List.map_congr_left fun chain hchain => ?_
  obtain ⟨hleads, hhead⟩ := h.led chain hchain
  have hstands : c.Stands chain.head.key := by
    rcases h.below chain hchain with hs | ⟨e, he, -⟩
    · exact hs
    · rw [hnone] at he
      cases he
  obtain ⟨d, hd⟩ := hstands
  have hd : c.group? chain.head.key = some d := hd
  obtain ⟨hplace, e, he, hkey, hid⟩ := htraced _ d (Or.inl hd)
  have hsame : e.id = chain.head.id := hu _ e hleads he (hkey.trans (congrArg Prod.snd hplace).symm)
  simp only [Function.comp_apply, BucketChain.path, List.getElem?_cons_succ]
  rw [← List.head?_eq_getElem?, hhead, Option.bind_some, hd, Option.map_some, ← hid, hsame]

/-- one bucket goes, and the chain that it led to -/
theorem Built.shortened {ticket : Ticket} {o : Objective} {port : PortNumber} {i : Nat} {id : GroupId}
    (h : Built device n acc c [] record chains) (hdevice : c.device = device) (hid : o.id = n)
    (hnone : c.concerning [] (Key.l3Ecmp n) = []) (hseconds : c.secondIds record = (chains.map (·.head.id)).map some)
    (hfound : c.findChain? port record.chains = some (i, id)) (hone : (c.secondIds record).count (some id) = 1)
    (hsub : ∀ r ∈ acc, r ∈ acc') :
    Built device n acc' (c.removeBucket ticket o port) [] { record with chains := record.chains.eraseIdx i }
      (chains.eraseIdx i) := by
  subst hdevice
  have hi := Controller.of_findChain? hfound
  rw [hseconds, List.getElem?_map, List.getElem?_map] at hi
  obtain ⟨chain, hchain, hhead⟩ : ∃ chain, chains[i]? = some chain ∧ chain.head.id = id := by
    simpa [Option.map_eq_some_iff] using hi
  have htop : record.chains[i]?.bind List.head? = some (Key.l3Ecmp n) := by
    rw [h.paths, List.getElem?_map, hchain]
    rfl
  rw [hseconds, List.count_map_of_injective _ _ (Option.some_injective _), ← hhead] at hone
  have hbuckets := BucketChain.filter_buckets hchain hone
  rw [hhead] at hbuckets
  obtain ⟨d, hd, hall⟩ := h.group
  rw [hnone, List.flatMap_nil, List.append_nil] at hall
  obtain ⟨hinstalled, hheld⟩ := Switch.get?_editBuckets (s := c.switch.log (.removeBuckets (Key.l3Ecmp n)
    [Bucket.toGroup id])) (f := fun bs => bs.filter fun b => b ∉ [Bucket.toGroup id]) hd
  rw [Controller.removeBucket_eq (hid ▸ h.store) hfound htop]
  have hfits := h.fits.eraseIdx i
  have hmem : ∀ chain ∈ chains.eraseIdx i, chain ∈ chains := fun _ hmem => List.mem_of_mem_eraseIdx hmem
  refine ⟨?_, h.own, hfits, ?_, ?_, ⟨_, hinstalled, ?_⟩, ?_, h.single, h.adds, ?_, h.unregistered⟩
  · exact (Store.get_put hfits _ _).trans (if_pos h.own.symm)
  · rw [h.paths, List.eraseIdx_map]
  · intro chain hchain
    exact ⟨(h.led chain (hmem chain hchain)).1.mono hsub, (h.led chain (hmem chain hchain)).2⟩
  · rw [hall, hbuckets]
    exact (congrArg (_ ++ List.flatMap _ ·) hnone).trans (List.append_nil _)
  · exact (congrArg (·.get? (c.device, Key.l3Ecmp n)) hheld).trans h.unheld
  · intro chain hchain
    rcases h.below chain (hmem chain hchain) with hs | hwait
    · exact Or.inl (Switch.stands_editBuckets.2 hs)
    · exact Or.inr hwait

end Changes

end FlowGroups
