/-
Broadcast objectives. A flood group hands packets on to one interface group for each bucket. No two buckets output to
one port, and a port has 64 bits; the id of an interface group has room for the lower sixteen.

- `flood_groups_apart_iff`: a broadcast plan has an interface group for each bucket, and the flood group waits for all
  of them and points to all of them. Their ids are different, and so are the groups that the buckets point to, if and
  only if no two ports agree in the lower sixteen bits.
- `distant_ports_share_groups`: packets flooded to the ports 1 and 65537 all go to one interface group.
-/
import FlowGroups.Proofs.Numbering

namespace FlowGroups

/-! ## Ids with a VLAN -/

theorem VlanId.toNat_bits (vlan : VlanId) : vlan.bits.toNat = vlan.val.toNat % 2 ^ 12 := by
  rw [bits, UInt32.toNat_and, UInt16.toNat_toUInt32]
  exact Nat.and_two_pow_sub_one_eq_mod _ 12

namespace GroupId

/-- a type tag, a VLAN below it, and sixteen bits of a number at the bottom -/
theorem toNat_onVlan {tag : UInt32} {n : Nat} (ht : tag.toNat = 2 ^ 28 * n) (vlan : VlanId) (y : UInt32) :
    (tag ||| vlan.bits <<< 16 ||| (y &&& 0xffff)).toNat =
      2 ^ 28 * n + 2 ^ 16 * (vlan.val.toNat % 2 ^ 12) + y.toNat % 2 ^ 16 := by
  have hvlan : vlan.val.toNat % 2 ^ 12 < 2 ^ 12 := Nat.mod_lt _ (by decide)
  have hshift : (vlan.bits <<< 16).toNat = 2 ^ 16 * (vlan.val.toNat % 2 ^ 12) := by
    rw [Word.toNat_shiftLeft_eq (j := 16) rfl, vlan.toNat_bits]
    omega
  have htag : (tag ||| vlan.bits <<< 16).toNat = 2 ^ 16 * (2 ^ 12 * n + vlan.val.toNat % 2 ^ 12) := by
    rw [UInt32.toNat_or, ht, hshift, ← Nat.two_pow_add_eq_or_of_lt (by omega)]
    omega
  rw [UInt32.and_comm y, Word.toNat_field htag (by decide)]
  omega

theorem toNat_l2Interface (vlan : VlanId) (port : PortNumber) :
    (l2Interface vlan port).val.toNat = 2 ^ 16 * (vlan.val.toNat % 2 ^ 12) + port.val.toNat % 2 ^ 16 := by
  rw [l2Interface, toNat_onVlan (n := 0) rfl, UInt64.toNat_toUInt32]
  omega

theorem toNat_l2Flood (vlan : VlanId) (objective : UInt32) : (l2Flood vlan objective).val.toNat =
    2 ^ 30 + 2 ^ 16 * (vlan.val.toNat % 2 ^ 12) + objective.toNat % 2 ^ 16 := by
  rw [l2Flood, toNat_onVlan (n := 4) rfl]
  omega

theorem toNat_inj {x y : GroupId} : x.val.toNat = y.val.toNat ↔ x = y := by
  cases x
  cases y
  rw [UInt32.toNat_inj, mk.injEq]

/-- of a port, the id of an interface group keeps the lower sixteen bits -/
theorem l2Interface_inj {vlan : VlanId} {x y : PortNumber} :
    l2Interface vlan x = l2Interface vlan y ↔ x.val.toNat % 2 ^ 16 = y.val.toNat % 2 ^ 16 := by
  rw [← toNat_inj, toNat_l2Interface, toNat_l2Interface, Nat.add_left_cancel_iff]

theorem l2Interface_ne_l2Flood (vlan vlan' : VlanId) (port : PortNumber) (objective : UInt32) :
    l2Interface vlan port ≠ l2Flood vlan' objective := by
  rw [ne_eq, ← toNat_inj, toNat_l2Interface, toNat_l2Flood]
  omega

end GroupId

/-! ## Lists without duplicates -/

theorem eraseDupsBy_eq_self {β : Type} {r : β → β → Bool} {l : List β} (h : l.Pairwise fun a b => r b a = false) :
    l.eraseDupsBy r = l := by
  induction l with
  | nil => rfl
  | cons a l ih =>
    obtain ⟨ha, hl⟩ := List.pairwise_cons.1 h
    rw [List.eraseDupsBy_cons, List.filter_eq_self.2 (by simpa using ha), ih hl]

/-- of descriptors with keys of their own none is dropped -/
theorem Descriptor.distinct_eq_self {ds : List Descriptor} (h : (ds.map (·.key)).Nodup) : distinct ds = ds := by
  refine eraseDupsBy_eq_self ((List.pairwise_map.1 h).imp ?_)
  intro d e hne
  simpa using Ne.symm hne

/-- elements that belong together are mapped to one list -/
theorem map_eq_of_forall₂ {β γ δ : Type} {R : β → γ → Prop} {f : β → δ} {g : γ → δ} (hR : ∀ b c, R b c → f b = g c)
    {xs : List β} {ys : List γ} (h : List.Forall₂ R xs ys) : xs.map f = ys.map g := by
  induction h with
  | nil => rfl
  | cons hfirst _ ih => rw [List.map_cons, List.map_cons, hR _ _ hfirst, ih]

/-- an element that is to wait for different keys waits for all of them -/
theorem Element.waitOn_after {d : Descriptor} {ks : List Key} {adds : Bool} (h : ks.Nodup) :
    (after d ks adds).waitOn = ks := by
  refine eraseDupsBy_eq_self (h.imp ?_)
  intro j k hne
  simpa using Ne.symm hne

/-! ## The interface groups of a broadcast objective -/

namespace Objective

variable {o : Objective} {device : DeviceId}

/-- each bucket has an interface group, for a port that is no other bucket's -/
theorem outlets_of_floodMembers {vlan : VlanId} (hvlan : ∀ t, o.outletVlan? t = some vlan) {ts : List Treatment}
    {ports : List PortNumber} {ds : List Descriptor} (h : o.floodMembers device vlan ts ports = .ok ds) :
    ∃ xs : List Outlet, ts.map o.outlet? = xs.map some ∧ List.Forall₂ (Descriptor.Serves device) xs ds ∧
      (∀ x ∈ xs, x.vlan = vlan ∧ x.port ∉ ports) ∧ (xs.map (·.port)).Nodup := by
  induction ts generalizing ports ds with
  | nil =>
    cases h
    exact ⟨[], rfl, .nil, by simp, by simp⟩
  | cons t ts ih =>
    obtain ⟨d, port, rest, hd, hport, hrest, rfl⟩ := floodMembers_cons_eq_ok h
    obtain ⟨xs, houtlets, hserves, hxs, hnodup⟩ := ih hrest
    obtain ⟨vlan', hsome, hegress, hserved⟩ := serves_of_l2Interface hd
    cases hsome
    refine ⟨⟨vlan, port⟩ :: xs, ?_, .cons hserved hserves, ?_, ?_⟩
    · rw [List.map_cons, List.map_cons, houtlets, outlet?_eq_some (hvlan t) hegress]
    · rw [List.forall_mem_cons]
      exact ⟨⟨rfl, hport⟩, fun x hx => ⟨(hxs x hx).1, fun hmem => (hxs x hx).2 (List.mem_cons_of_mem _ hmem)⟩⟩
    · rw [List.map_cons, List.nodup_cons]
      refine ⟨fun hmem => ?_, hnodup⟩
      obtain ⟨x, hx, hxp⟩ := List.mem_map.1 hmem
      exact (hxs x hx).2 (hxp ▸ List.mem_cons_self)

/-- a broadcast plan in full: interface groups in the order of the buckets, and the flood group on top of them -/
theorem groups_of_planBroadcast {p : Plan} (h : o.planBroadcast device = .ok p) :
    ∃ vlan ds, (o.hintedVlan? <|> o.treatments.findSome? Treatment.vlanId?) = some vlan ∧
      o.floodMembers device vlan o.treatments [] = .ok ds ∧ p.initial = Descriptor.distinct ds ∧
      p.elements = [.after (o.descriptor device .all (ds.map (Bucket.toGroup ·.id)) (Key.l2Flood o.id)
        (GroupId.l2Flood vlan o.id)) (ds.map (·.key)) false] := by
  simp only [planBroadcast, bind, Except.bind, pure, Except.pure] at h
  split at h
  · cases h
  · split at h
    · cases h
    · rename_i vlan hvlan
      split at h
      · cases h
      · rename_i ds hds
        cases h
        exact ⟨vlan, ds, hvlan, hds, rfl, rfl⟩

end Objective

/-- what is seen of a plan is seen of one that was made -/
theorem Planner.exists_of_map {β : Type} {planner : Planner} {o : Objective} {f : Plan → β} {v : β}
    (h : (planner.build o).1.map f = .ok v) : ∃ p, (planner.build o).1 = .ok p ∧ f p = v := by
  cases hbuild : (planner.build o).1 with
  | error e =>
    rw [hbuild] at h
    cases h
  | ok p =>
    rw [hbuild] at h
    exact ⟨p, rfl, Except.ok.inj h⟩

/-! ## Where packets are flooded to -/

/-- the plan floods packets on a VLAN: a group for each outlet, and one that waits for all of them and points to them -/
structure Plan.Floods (o : Objective) (device : DeviceId) (vlan : VlanId) (p : Plan) (flood : Element) : Prop where
  elements : p.elements = [flood]
  kind : flood.descriptor.kind = .all
  id : flood.descriptor.id = GroupId.l2Flood vlan o.id
  /-- every bucket has an outlet, on the same VLAN and on a port of its own -/
  outlets : o.treatments.map o.outlet? = o.outlets.map some
  vlans : ∀ x ∈ o.outlets, x.vlan = vlan
  ports : (o.outlets.map (·.port)).Nodup
  /-- the interface groups are those of the outlets, in the order of the buckets -/
  keys : p.initial.map (·.key) = o.outlets.map (Outlet.key device)
  ids : p.initial.map (·.id) = o.outlets.map Outlet.groupId
  waits : flood.waitOn = p.initial.map (·.key)
  distinct : flood.waitOn.Nodup
  buckets : flood.descriptor.buckets = p.initial.map (Bucket.toGroup ·.id)

/-- a broadcast objective whose outlets have keys of their own loses no interface group -/
theorem Objective.floods_of_planBroadcast {o : Objective} {device : DeviceId} {p : Plan} (hk : o.kind = .broadcast)
    (hsep : o.Separates device) (h : o.planBroadcast device = .ok p) : ∃ vlan flood, p.Floods o device vlan flood := by
  obtain ⟨vlan, ds, hvlan, hds, hinitial, helements⟩ := groups_of_planBroadcast h
  have houtletVlan : ∀ t, o.outletVlan? t = some vlan := fun t => by simp only [outletVlan?, hk, hvlan]
  obtain ⟨xs, houtlets, hserves, hxs, hports⟩ := outlets_of_floodMembers houtletVlan hds
  have hall : xs = o.outlets := by
    calc xs = (xs.map some).filterMap fun x => x := by rw [List.filterMap_map]; exact List.filterMap_some.symm
      _ = (o.treatments.map o.outlet?).filterMap fun x => x := by rw [houtlets]
      _ = o.outlets := by rw [List.filterMap_map]; rfl
  subst hall
  have hkeys : o.outlets.map (Outlet.key device) = ds.map (·.key) :=
    map_eq_of_forall₂ (fun _ _ hserved => hserved.key.symm) hserves
  have hids : o.outlets.map Outlet.groupId = ds.map (·.id) :=
    map_eq_of_forall₂ (fun _ _ hserved => hserved.id.symm) hserves
  have hdistinct : (ds.map (·.key)).Nodup := by
    rw [← hkeys]
    exact hports.of_map.map_on hsep
  rw [Descriptor.distinct_eq_self hdistinct] at hinitial
  subst hinitial
  have hvlans : ∀ x ∈ o.outlets, x.vlan = vlan := fun x hx => (hxs x hx).1
  refine ⟨vlan, _, ⟨helements, rfl, rfl, houtlets, hvlans, hports, hkeys.symm, hids.symm, ?_, ?_, rfl⟩⟩
  · exact Element.waitOn_after hdistinct
  · rw [Element.waitOn_after hdistinct]
    exact hdistinct

namespace Plan.Floods

variable {o : Objective} {device : DeviceId} {vlan : VlanId} {p : Plan} {flood : Element}

theorem length_initial (h : p.Floods o device vlan flood) : p.initial.length = o.treatments.length := by
  calc p.initial.length = o.outlets.length := by simpa using congrArg List.length h.ids
    _ = o.treatments.length := by simpa using (congrArg List.length h.outlets).symm

/-- interface groups are told apart by the lower sixteen bits of their ports -/
theorem apart_iff (h : p.Floods o device vlan flood) :
    (p.initial.map (·.id)).Nodup ↔ (o.outlets.map fun x => x.port.val.toNat % 2 ^ 16).Nodup := by
  rw [h.ids, List.nodup_map_iff_inj_on h.ports.of_map, List.nodup_map_iff_inj_on h.ports.of_map]
  refine forall₂_congr fun x hx => forall₂_congr fun y hy => ?_
  rw [Outlet.groupId, Outlet.groupId, h.vlans x hx, h.vlans y hy, GroupId.l2Interface_inj]

/-- the flood group is never taken for one of them -/
theorem flood_apart (h : p.Floods o device vlan flood) : flood.descriptor.id ∉ p.initial.map (·.id) := by
  rw [h.id, h.ids]
  intro hmem
  obtain ⟨x, -, hx⟩ := List.mem_map.1 hmem
  exact GroupId.l2Interface_ne_l2Flood _ _ _ _ hx

end Plan.Floods

/-- **Where packets are flooded to.** Let a broadcast objective be accepted, and let its outlets have keys of their own.
For its N buckets there are N interface groups and one group on top, which waits for N keys and has N buckets, each of
which points to the interface group of one outlet. All ids of the plan are different, and so are the groups pointed to,
if and only if the ports of the buckets are different in their lower sixteen bits; as whole numbers they always are. -/
theorem flood_groups_apart_iff {planner : Planner} {o : Objective} {p : Plan} (hk : o.kind = .broadcast)
    (hsep : o.Separates planner.device) (h : (planner.build o).1 = .ok p) :
    ∃ vlan flood, p.Floods o planner.device vlan flood ∧
      (p.descriptors.length = o.treatments.length + 1 ∧ flood.waitOn.length = o.treatments.length ∧
        flood.descriptor.buckets.length = o.treatments.length) ∧
      ((p.descriptors.map (·.id)).Nodup ↔ (o.outlets.map fun x => x.port.val.toNat % 2 ^ 16).Nodup) ∧
      ((p.initial.map (·.id)).Nodup ↔ (o.outlets.map fun x => x.port.val.toNat % 2 ^ 16).Nodup) := by
  simp only [Planner.build, hk] at h
  obtain ⟨vlan, flood, hfloods⟩ := Objective.floods_of_planBroadcast hk hsep h
  have hdescriptors : p.descriptors = p.initial ++ [flood.descriptor] := by
    rw [Plan.descriptors, hfloods.elements]
    rfl
  refine ⟨vlan, flood, hfloods, ⟨?_, ?_, ?_⟩, ?_, hfloods.apart_iff⟩
  · rw [hdescriptors, List.length_append, hfloods.length_initial, List.length_singleton]
  · rw [hfloods.waits, List.length_map, hfloods.length_initial]
  · rw [hfloods.buckets, List.length_map, hfloods.length_initial]
  · rw [hdescriptors, List.map_append, ← hfloods.apart_iff]
    calc (p.initial.map (·.id) ++ [flood.descriptor].map (·.id)).Nodup
        ↔ (flood.descriptor.id :: p.initial.map (·.id)).Nodup := (List.perm_append_singleton _ _).nodup_iff
      _ ↔ (p.initial.map (·.id)).Nodup := List.nodup_cons.trans (and_iff_right hfloods.flood_apart)

namespace Sample

/-- packets are flooded to two ports on the VLAN that the metadata gives -/
def flooded (x y : PortNumber) : Objective :=
  ⟨4, .broadcast, [⟨[.output x]⟩, ⟨[.output y]⟩], ⟨"sample"⟩, some ⟨[.vlanVid ⟨10⟩]⟩⟩

end Sample

/-- the ports 1 and 2 have a group each -/
theorem near_ports_have_own_groups : ∃ p, ((Planner.fresh Sample.device).build (Sample.flooded ⟨1⟩ ⟨2⟩)).1 = .ok p ∧
    p.descriptors.length = 3 ∧ (p.descriptors.map (·.id)).Nodup ∧ (p.initial.map (·.id)).Nodup := by
  have hsep : (Sample.flooded ⟨1⟩ ⟨2⟩).Separates (Planner.fresh Sample.device).device := by decide +kernel
  have hports : ((Sample.flooded ⟨1⟩ ⟨2⟩).outlets.map fun x => x.port.val.toNat % 2 ^ 16).Nodup := by decide +kernel
  have hview : ((Planner.fresh Sample.device).build (Sample.flooded ⟨1⟩ ⟨2⟩)).1.map (·.topId) = .ok ⟨0x400a0004⟩ := by
    decide +kernel
  obtain ⟨p, hp, -⟩ := Planner.exists_of_map hview
  obtain ⟨vlan, flood, -, ⟨hsize, -, -⟩, hall, hinner⟩ := flood_groups_apart_iff rfl hsep hp
  exact ⟨p, hp, hsize, hall.2 hports, hinner.2 hports⟩

/-- **Two ports share their group.** The ports 1 and 65537 differ, and their interface groups have keys of their own, so
the objective is accepted and three groups are planned; but both buckets of the flood group point to the same id. -/
theorem distant_ports_share_groups :
    (Sample.flooded ⟨1⟩ ⟨65537⟩).Separates Sample.device ∧
      ∃ p, ((Planner.fresh Sample.device).build (Sample.flooded ⟨1⟩ ⟨65537⟩)).1 = .ok p ∧
        (p.initial.map (·.key)).Nodup ∧ p.descriptors.map (·.id) = [⟨0x000a0001⟩, ⟨0x000a0001⟩, ⟨0x400a0004⟩] ∧
        p.elements.map (·.descriptor.buckets) = [[Bucket.toGroup ⟨0x000a0001⟩, Bucket.toGroup ⟨0x000a0001⟩]] := by
  have hview : ((Planner.fresh Sample.device).build (Sample.flooded ⟨1⟩ ⟨65537⟩)).1.map
      (fun p => (decide (p.initial.map (·.key)).Nodup, p.descriptors.map (·.id),
        p.elements.map (·.descriptor.buckets))) =
      .ok (true, [⟨0x000a0001⟩, ⟨0x000a0001⟩, ⟨0x400a0004⟩],
        [[Bucket.toGroup ⟨0x000a0001⟩, Bucket.toGroup ⟨0x000a0001⟩]]) := by
    decide +kernel
  obtain ⟨p, hp, hseen⟩ := Planner.exists_of_map hview
  rw [Prod.mk.injEq, Prod.mk.injEq, decide_eq_true_eq] at hseen
  exact ⟨by decide +kernel, p, hp, hseen⟩

end FlowGroups
