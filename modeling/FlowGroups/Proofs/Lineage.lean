/-
Where the chains of a stored record come from. An installation writes the chains of its plan; after that buckets are
added behind them and removed from anywhere. Nobody looks at the kind of the objective that is installed when a bucket is
added to it, and its chain begins with the ECMP key whatever the others begin with.

- `stored_record_stems`: a record has the id it is stored under and no empty chain; chains of one installation come
  first, each from its top-level key, and then chains of added buckets. All begin with the top-level key if and only if
  the objective that was installed is hashed or no added chain is left.
- `mixed_record`: a bucket is added to a simple objective, and the record has chains with different heads.
-/
import FlowGroups.Proofs.Deletion

namespace FlowGroups

/-! ## Heads of chains -/

theorem Key.l2Flood_ne_l3Ecmp (m n : UInt32) : l2Flood m ≠ l3Ecmp n := by
  intro h
  have hword : (Tag.l2Flood ||| (Tag.belowType &&& m <<< 12)) = (Tag.l3Ecmp ||| (Tag.belowType &&& n <<< 12)) :=
    Word.big32_injective (congrArg Key.octets h)
  have hnat := congrArg UInt32.toNat hword
  rw [Word.toNat_field (i := 28) (m := 4) (by decide) (by decide),
    Word.toNat_field (i := 28) (m := 7) (by decide) (by decide)] at hnat
  omega

/-- the only group of a simple objective, or the upper one of two, lies below the groups of whole objectives -/
theorem Plan.Composes.level_of_simple {o : Objective} {device : DeviceId} {adds : Bool} {p : Plan}
    {cs : List BucketChain} {crown : List Element} (h : p.Composes o device adds cs crown) (hk : o.kind = .simple) :
    p.topKey.level < 3 := by
  rcases h.assembles.bare_or_top with ⟨-, htop⟩ | ⟨e, -, hcrown, -⟩
  · obtain ⟨c, hc⟩ := List.exists_mem_of_ne_nil cs h.assembles.nonempty
    rw [← htop c hc]
    exact (h.layered c hc).low _ (h.layered c hc).head
  · rw [h.bare.2 hk] at hcrown
    cases hcrown

/-- only hashed objectives have an ECMP group on top -/
theorem Planner.topKey_eq_l3Ecmp_iff {planner : Planner} {o : Objective} {p : Plan}
    (h : (planner.build o).1 = .ok p) : p.topKey = Key.l3Ecmp o.id ↔ o.kind = .hashed := by
  constructor
  · intro htop
    cases hk : o.kind with
    | hashed => rfl
    | broadcast =>
      have hflood := topKey_of_build (Or.inr hk) h
      rw [htop, Objective.topKey, if_pos hk] at hflood
      exact absurd hflood.symm (Key.l2Flood_ne_l3Ecmp _ _)
    | simple =>
      obtain ⟨cs, crown, -, hcomposes⟩ := composes_of_build h
      have hlevel := hcomposes.level_of_simple hk
      rw [htop, Key.level_l3Ecmp] at hlevel
      exact absurd hlevel (Nat.lt_irrefl 3)
    | failover => simp [build, hk] at h
  · intro hk
    simpa [Objective.topKey, hk] using topKey_of_build (Or.inl hk) h

/-! ## Where records come from -/

/-- the chains that are left of an installation, and behind them the chains of buckets that were added -/
structure Record.StemsFrom (acc : List Request) (r : Record) (ticket : Ticket) (o : Objective) (p : Plan)
    (own added : List (List Key)) : Prop where
  accepted : .install ticket o p ∈ acc
  objective : r.objective = o.id
  chains : r.chains = own ++ added
  own : own.Sublist p.record.chains
  added : ∀ chain ∈ added, ∃ a, .addBucket a ∈ acc ∧ a.objective.id = o.id ∧ chain ∈ a.plan.record.chains

/-- does the record come from an installation that was accepted? -/
def Record.Stems (acc : List Request) (r : Record) : Prop :=
  ∃ ticket o p own added, r.StemsFrom acc ticket o p own added

section Stems

variable {acc : List Request} {r : Record} {ticket : Ticket} {o : Objective} {p : Plan} {own added : List (List Key)}

namespace Record.StemsFrom

theorem fresh (hr : .install ticket o p ∈ acc) (hid : p.record.objective = o.id) :
    p.record.StemsFrom acc ticket o p p.record.chains [] :=
  ⟨hr, hid, by simp, List.Sublist.refl _, by simp⟩

theorem append {a : Addition} (h : r.StemsFrom acc ticket o p own added) (ha : .addBucket a ∈ acc)
    (hid : a.objective.id = r.objective) :
    (r.append a.plan.record).StemsFrom acc ticket o p own (added ++ a.plan.record.chains) := by
  refine ⟨h.accepted, h.objective, ?_, h.own, ?_⟩
  · simp [Record.append, h.chains]
  · intro chain hchain
    rcases List.mem_append.1 hchain with hchain | hchain
    · exact h.added chain hchain
    · exact ⟨a, ha, hid.trans h.objective, hchain⟩

theorem eraseIdx (h : r.StemsFrom acc ticket o p own added) (i : Nat) :
    ∃ own' added', Record.StemsFrom acc { r with chains := r.chains.eraseIdx i } ticket o p own' added' := by
  by_cases hi : i < own.length
  · refine ⟨own.eraseIdx i, added, h.accepted, h.objective, ?_, ?_, h.added⟩
    · rw [h.chains, List.eraseIdx_append_of_lt_length hi]
    · exact (List.eraseIdx_sublist own i).trans h.own
  · refine ⟨own, added.eraseIdx (i - own.length), h.accepted, h.objective, ?_, h.own, ?_⟩
    · rw [h.chains, List.eraseIdx_append_of_length_le (Nat.le_of_not_lt hi)]
    · exact fun chain hchain => h.added chain (List.mem_of_mem_eraseIdx hchain)

end Record.StemsFrom

/-- a record begins with an installation, and whatever is done to it later keeps it its descendant -/
theorem Record.hereditary_stems (hinstall : ∀ ticket o p, .install ticket o p ∈ acc → p.record.objective = o.id) :
    Hereditary acc fun _ r => r.Stems acc where
  installed ticket o p hr := ⟨ticket, o, p, _, _, .fresh hr (hinstall ticket o p hr)⟩
  extended a r hr hid hstems := by
    obtain ⟨ticket, o, p, own, added, hrecord⟩ := hstems
    exact ⟨ticket, o, p, own, _, hrecord.append hr hid.symm⟩
  shortened r i hstems := by
    obtain ⟨ticket, o, p, own, added, hrecord⟩ := hstems
    obtain ⟨own', added', hrest⟩ := hrecord.eraseIdx i
    exact ⟨ticket, o, p, own', added', hrest⟩

/-- every chain begins with the top-level key of the installation if the added ones do, which begin with an ECMP key -/
theorem Record.StemsFrom.topped_iff {device : DeviceId} (h : r.StemsFrom acc ticket o p own added)
    (hplan : (Request.install ticket o p).Planned device)
    (hown : ∀ chain ∈ own, chain.head? = some p.topKey)
    (hadded : ∀ chain ∈ added, chain.head? = some (Key.l3Ecmp o.id)) :
    (∀ chain ∈ r.chains, chain.head? = some p.topKey) ↔ o.kind = .hashed ∨ added = [] := by
  obtain ⟨index, hbuild⟩ := hplan
  have htop := Planner.topKey_eq_l3Ecmp_iff hbuild
  rw [h.chains]
  constructor
  · intro hall
    by_cases hnone : added = []
    · exact Or.inr hnone
    · obtain ⟨chain, hchain⟩ := List.exists_mem_of_ne_nil added hnone
      have hhead : some p.topKey = some (Key.l3Ecmp o.id) :=
        (hall chain (List.mem_append_right own hchain)).symm.trans (hadded chain hchain)
      exact Or.inl (htop.1 (Option.some.inj hhead))
  · intro hor chain hchain
    rcases List.mem_append.1 hchain with hchain | hchain
    · exact hown chain hchain
    · rcases hor with hk | hnone
      · rw [htop.2 hk]
        exact hadded chain hchain
      · rw [hnone] at hchain
        cases hchain

end Stems

/-- **What a stored record is made of.** Whatever is requested of a controller over an empty store, and whatever the
switch does: every record can be read, has the id it is stored under and no empty chain. It has chains of one
installation of its objective, which begin with the top-level key of that, and behind them chains of added buckets,
which begin with the ECMP key of the id. So all of its chains begin with the top-level key of the installation if and
only if this was one of a hashed objective, or no chain of an added bucket is left. -/
theorem stored_record_stems {device : DeviceId} {delay : Nat} {switch : Switch} {metrics : Metrics} {moves : List Move}
    (h : Allowed (fun m move => move.Admissible device m) (.start device delay switch .empty metrics) moves)
    (n : UInt32) :
    let m := (Moment.start device delay switch .empty metrics).run moves
    ∃ stored, m.controller.store.get n = .ok stored ∧
      ∀ r ∈ stored, r.objective = n ∧ [] ∉ r.chains ∧
        ∃ ticket o p own added, r.StemsFrom m.accepted ticket o p own added ∧
          (∀ chain ∈ own, chain.head? = some p.topKey) ∧ (∀ chain ∈ added, chain.head? = some (Key.l3Ecmp n)) ∧
          ((∀ chain ∈ r.chains, chain.head? = some p.topKey) ↔ o.kind = .hashed ∨ added = []) := by
  intro m
  have hp : ∀ q ∈ m.accepted, q.Planned device := Moment.planned_run h
  have hstart : Booked [] .empty (Moment.start device delay switch .empty metrics).accepted []
      (Moment.start device delay switch .empty metrics).controller := booked_start device delay switch .empty metrics
  have hhanded : Hereditary m.accepted fun _ r => r.Stems m.accepted :=
    Record.hereditary_stems fun ticket o p hr => ((hp _ hr).record rfl).1
  obtain ⟨hsound, hstems⟩ := (hstart.chronicle_run hp fun _ hr => hr).all hp hhanded
    ⟨Store.sound_empty, Store.all_empty _⟩
  rcases hsound n with hnone | ⟨r, hget, hid, -⟩
  · exact ⟨none, hnone, by simp⟩
  refine ⟨some r, hget, ?_⟩
  intro q hq
  obtain rfl := Option.some.inj hq
  obtain ⟨ticket, o, p, own, added, hrecord⟩ := hstems n r hget
  have hon : o.id = n := hrecord.objective.symm.trans hid
  have hinstall := hp _ hrecord.accepted
  have hown : ∀ chain ∈ own, chain.head? = some p.topKey := fun chain hchain =>
    hinstall.rooted.topped chain (hrecord.own.subset hchain)
  have hadded : ∀ chain ∈ added, chain.head? = some (Key.l3Ecmp o.id) := by
    intro chain hchain
    obtain ⟨a, ha, haid, hmem⟩ := hrecord.added chain hchain
    obtain ⟨index, hbuild⟩ := hp _ ha
    obtain ⟨hkind, -⟩ := Planner.composes_of_buildAddBucket hbuild
    have hhead := (hp _ ha).topped (.inl hkind) rfl chain hmem
    simpa [Request.objective, Objective.topKey, hkind, haid] using hhead
  refine ⟨hid, ?_, ticket, o, p, own, added, hrecord, hown, hon ▸ hadded, hrecord.topped_iff hinstall hown hadded⟩
  intro hempty
  rw [hrecord.chains, List.mem_append] at hempty
  rcases hempty with hempty | hempty
  · cases hown [] hempty
  · cases hadded [] hempty

namespace Sample

/-- a bucket is added to the objective that is installed -/
def doubleHashed : List Move := hashedInstalled ++ [.handle (.request 0 (.addBucket (addition 1 ⟨20⟩)))]

end Sample

/-- the objective that is installed is hashed, so the chain that was added begins like the other one -/
theorem chains_of_sample_stem :
    ∃ r, (Sample.start.run Sample.doubleHashed).controller.store.get 4 = .ok (some r) ∧ r.chains.length = 2 ∧
      ∀ chain ∈ r.chains, chain.head? = some (Key.l3Ecmp 4) := by
  have hadd : (Request.addBucket (Sample.addition 1 ⟨20⟩)).Planned Sample.device := ⟨0, rfl⟩
  have h : Allowed (fun m move => move.Admissible Sample.device m) Sample.start Sample.doubleHashed :=
    allowed_append.2 ⟨Sample.admissible_hashedInstalled, ⟨hadd, by decide +kernel⟩, trivial⟩
  have hacc : (Sample.start.run Sample.doubleHashed).accepted =
      [Sample.hashedRequest, .addBucket (Sample.addition 1 ⟨20⟩)] := by
    decide +kernel
  have hget : (Sample.start.run Sample.doubleHashed).controller.store.get 4 =
      .ok (some ((Sample.hashedPlan ⟨10⟩).record.append (Sample.addition 1 ⟨20⟩).plan.record)) := by
    decide +kernel
  refine ⟨_, hget, rfl, ?_⟩
  unfold Sample.start at h hacc hget
  obtain ⟨stored, hstored, hall⟩ := stored_record_stems h 4
  rw [hget] at hstored
  cases hstored
  obtain ⟨-, -, ticket, o, p, own, added, hrecord, -, -, htopped⟩ := hall _ rfl
  have hmem := hrecord.accepted
  rw [hacc] at hmem
  simp only [List.mem_cons, List.not_mem_nil, or_false, reduceCtorEq] at hmem
  cases hmem
  exact htopped.2 (Or.inl rfl)

/-! ## A bucket on top of nothing -/

namespace Sample

/-- one interface group is all that this objective needs -/
def lone : Objective := ⟨4, .simple, [⟨[.setVlanId ⟨10⟩, .output ⟨7⟩]⟩], ⟨"sample"⟩, none⟩

def lonePlan : Plan :=
  ⟨4, [inner ⟨10⟩], [], ⟨4, [[(inner ⟨10⟩).key]]⟩, (inner ⟨10⟩).key, (inner ⟨10⟩).id⟩

/-- the simple objective is installed, and a bucket is added to it -/
def mixed : List Move :=
  [.handle (.request 0 (.install 0 lone lonePlan)), .work] ++ confirmed (inner ⟨10⟩).key ++
    [.work, .handle (.request 0 (.addBucket (addition 1 ⟨10⟩)))]

end Sample

/-- **A bucket is added to a simple objective.** The request is answered with success and with the id of an ECMP group
that is neither on the device nor asked for. Of the two chains of the record one begins with the interface group, which
is the top-level group of the objective, and the other with the ECMP group. -/
theorem mixed_record :
    let m := Sample.start.run Sample.mixed
    let record : Record :=
      ⟨4, [[Sample.lonePlan.topKey], [Key.l3Ecmp 4, (Sample.outer ⟨10⟩).key, (Sample.inner ⟨10⟩).key]]⟩
    Allowed (fun m move => move.Admissible Sample.device m) Sample.start Sample.mixed ∧
      m.controller.replies = [⟨0, .installed Sample.lonePlan.topId⟩, ⟨1, .installed (GroupId.l3Ecmp 4)⟩] ∧
      m.controller.store.get 4 = .ok (some record) ∧
      (¬∃ k, ∀ chain ∈ record.chains, chain.head? = some k) ∧
      ¬m.controller.Stands (Key.l3Ecmp 4) ∧ Key.l3Ecmp 4 ∉ m.controller.requested := by
  intro m record
  have hplanned : (Request.install 0 Sample.lone Sample.lonePlan).Planned Sample.device := ⟨0, rfl⟩
  have hadd : (Request.addBucket (Sample.addition 1 ⟨10⟩)).Planned Sample.device := ⟨0, rfl⟩
  have hheads : Sample.lonePlan.topKey ≠ Key.l3Ecmp 4 := by decide +kernel
  refine ⟨⟨⟨hplanned, List.not_mem_nil⟩, trivial, trivial, trivial, trivial, ⟨hadd, by decide +kernel⟩, trivial⟩,
    by decide +kernel, by decide +kernel, ?_, by decide +kernel, by decide +kernel⟩
  intro ⟨k, hk⟩
  apply hheads
  apply Option.some.inj
  calc some Sample.lonePlan.topKey = some k := hk _ List.mem_cons_self
    _ = some (Key.l3Ecmp 4) := (hk _ (List.mem_cons_of_mem _ List.mem_cons_self)).symm

end FlowGroups
