/-
What a removal takes from the device. It works from the record alone: every group that a chain of the record lists is
removed once, in the order in which the chains first list it.

- `removal_order`: of two groups of which one points to the other, the outer one goes first if and only if no chain
  with the inner one stands before all chains with the outer one.
- `inner_removed_first`: two chains end in one group, and this goes before the head of the second chain.
- `removal_takes_listed_top`: the top-level group of a hashed or broadcast objective goes with the record as long as the
  record has a chain.
- `empty_group_outlives_record`: without its last bucket the record has no chain, and the empty group stays for good.
-/
import FlowGroups.Proofs.Buckets
import FlowGroups.Proofs.Removal

namespace FlowGroups

/-! ## What the records list -/

/-- do all chains of all records have some property, which may depend on the objective? -/
def Store.Lists (P : UInt32 → List Key → Prop) (s : Store) : Prop :=
  ∀ n r, s.get n = .ok (some r) → ∀ chain ∈ r.chains, P n chain

theorem Store.Lists.empty (P : UInt32 → List Key → Prop) : Store.empty.Lists P := Store.all_empty _

/-- do all plans of some requests list only chains with a property? -/
def Lists (P : UInt32 → List Key → Prop) (acc : List Request) : Prop :=
  ∀ q ∈ acc, ∀ p, q.plan? = some p → ∀ chain ∈ p.record.chains, P q.objective.id chain

/-- what is stored lists what was stored or planned before -/
theorem Lists.hereditary {P : UInt32 → List Key → Prop} {acc : List Request} (h : Lists P acc) :
    Hereditary acc fun n r => ∀ chain ∈ r.chains, P n chain where
  installed ticket o p hr := h _ hr p rfl
  extended a r hr hid hall chain hchain := by
    rcases List.mem_append.1 hchain with hchain | hchain
    · exact hall chain hchain
    · rw [hid]
      exact h _ hr _ rfl chain hchain
  shortened r i hall chain hchain := hall chain (List.mem_of_mem_eraseIdx hchain)

/-! ## A removal that succeeds -/

namespace Controller

/-- whoever is given up is told of a failure -/
theorem replies_giveUp (c : Controller) (n : UInt32) :
    ∀ reply ∈ (c.giveUp n).replies, reply ∈ c.replies ∨ ∃ e, reply.outcome = .failed e := by
  refine giveUp_keeps
    (P := fun _ d => ∀ reply ∈ d.replies, reply ∈ c.replies ∨ ∃ e, reply.outcome = .failed e) ?_ (fun _ hd => hd)
    fun _ h => Or.inl h
  intro r rs d hd reply hreply
  have hone : ∀ reply ∈ (d.failed r).replies, reply ∈ c.replies ∨ ∃ e, reply.outcome = .failed e := by
    intro reply hreply
    rcases List.mem_append.1 hreply with hreply | hreply
    · exact hd reply hreply
    · exact Or.inr ⟨_, congrArg Reply.outcome (List.mem_singleton.1 hreply)⟩
  rcases d.abandonOne_cases r with ⟨a, -, he⟩ | ⟨-, he⟩
  · rw [he] at hreply
    rcases List.mem_append.1 hreply with hreply | hreply
    · exact hone reply hreply
    · exact Or.inr ⟨_, congrArg Reply.outcome (List.mem_singleton.1 hreply)⟩
  · rw [he] at hreply
    exact hone reply hreply

theorem replies_withdraw (c : Controller) (n : UInt32) :
    ∀ reply ∈ (c.withdraw n).replies, reply ∈ c.replies ∨ ∃ e, reply.outcome = .failed e := by
  unfold withdraw
  split
  · intro reply hreply
    rcases List.mem_append.1 hreply with hreply | hreply
    · exact Or.inl hreply
    · exact Or.inr ⟨_, congrArg Reply.outcome (List.mem_singleton.1 hreply)⟩
  · exact fun reply hreply => Or.inl hreply

/-- a success is only told where there is a record, whose groups are removed then, and the record with them -/
theorem remove_of_removed {c : Controller} {ticket : Ticket} {o : Objective}
    (h : ⟨ticket, .removed⟩ ∈ (c.remove ticket o).replies) (hnew : ⟨ticket, .removed⟩ ∉ c.replies) :
    ∃ record, c.store.get o.id = .ok (some record) ∧
      (c.remove ticket o).device = c.device ∧ (c.remove ticket o).store = (c.store.remove o.id).1 ∧
      (c.remove ticket o).switch = c.switch.removeGroups c.device record.distinctKeys := by
  obtain ⟨hdw, hsw, -, -⟩ := c.withdraw_spares o.id
  obtain ⟨hdg, hsg, -, -⟩ := (c.withdraw o.id).giveUp_spares o.id
  have hdevice := hdg.trans hdw
  have hswitch := hsg.trans hsw
  have hstore : ((c.withdraw o.id).giveUp o.id).store = c.store := (store_giveUp _ _).trans (store_withdraw _ _)
  rw [remove_eq] at h ⊢
  rcases ((c.withdraw o.id).giveUp o.id).deleteStored_cases ticket o with ⟨e, stop, he⟩ | ⟨record, hs, he⟩
  · -- a refusal tells of a failure, and so does whatever was told on the way
    rw [he] at h
    have hold : ⟨ticket, .removed⟩ ∈ ((c.withdraw o.id).giveUp o.id).replies := by
      rcases List.mem_append.1 h with h | h
      · exact h
      · cases congrArg Reply.outcome (List.mem_singleton.1 h)
    rcases replies_giveUp _ _ _ hold with hold | ⟨e, hfailed⟩
    · rcases replies_withdraw _ _ _ hold with hold | ⟨e, hfailed⟩
      · exact absurd hold hnew
      · cases hfailed
    · cases hfailed
  · rw [he]
    refine ⟨record, hstore ▸ hs, hdevice, ?_, ?_⟩
    · simp only [hstore]
    · simp only [hdevice, hswitch]

end Controller

/-- the move that asks for a removal -/
abbrev Move.removal (now : Nat) (ticket : Ticket) (o : Objective) : Move := .handle (.request now (.remove ticket o))

/-- A removal at the end of a run that is answered with success: the record it works from lists only what was stored at
the start or planned since. -/
theorem Moment.of_removed {P : UInt32 → List Key → Prop} {device : DeviceId} {delay : Nat} {switch : Switch}
    {store : Store} {metrics : Metrics} {before : List Move} {now : Nat} {ticket : Ticket} {o : Objective}
    (hstore : store.Sound) (hlists : store.Lists P)
    (h : Allowed (fun m move => move.Admissible device m) (.start device delay switch store metrics)
      (before ++ [.removal now ticket o]))
    (hplans : Lists P ((Moment.start device delay switch store metrics).run before).accepted) :
    let m := (Moment.start device delay switch store metrics).run before
    let n := m.step (.removal now ticket o)
    ⟨ticket, .removed⟩ ∈ n.controller.replies →
      ∃ record, m.controller.store.get o.id = .ok (some record) ∧ (∀ chain ∈ record.chains, P o.id chain) ∧
        n.controller.device = m.controller.device ∧
        n.controller.store = (m.controller.store.remove o.id).1 ∧
        n.controller.switch = m.controller.switch.removeGroups m.controller.device record.distinctKeys := by
  intro m n hok
  obtain ⟨hbefore, hlast, -⟩ := allowed_append.1 h
  have hp : ∀ q ∈ m.accepted, q.Planned device := Moment.planned_run hbefore
  have hstart : Booked [] store (Moment.start device delay switch store metrics).accepted []
      (Moment.start device delay switch store metrics).controller := booked_start device delay switch store metrics
  have hbooked : Booked [] store m.accepted [] m.controller := (hstart.run List.nodup_nil hbefore).1
  have hstored : m.controller.store.Sound ∧ m.controller.store.Lists P :=
    (hstart.chronicle_run hp fun _ hr => hr).all hp hplans.hereditary ⟨hstore, hlists⟩
  have hnew : ⟨ticket, .removed⟩ ∉ m.controller.replies := fun hold => hlast.2 (hbooked.ticket_of_reply hold)
  simp only [n, Moment.step] at hok ⊢
  split_ifs at hok ⊢ with hidle
  · obtain ⟨record, hget, hrest⟩ := Controller.remove_of_removed hok hnew
    exact ⟨record, hget, hstored.2 o.id record hget, hrest⟩
  · exact absurd hok hnew

namespace Sample

/-- the installed objective is removed, and this is answered with success -/
theorem hashed_removed :
    Allowed (fun m move => move.Admissible device m) start (hashedInstalled ++ [.removal 0 1 (hashed ⟨10⟩)]) ∧
      ⟨1, .removed⟩ ∈ ((start.run hashedInstalled).step (.removal 0 1 (hashed ⟨10⟩))).controller.replies :=
  ⟨allowed_append.2 ⟨admissible_hashedInstalled, ⟨trivial, by decide +kernel⟩, trivial⟩, by decide +kernel⟩

theorem record_of_hashedInstalled :
    (start.run hashedInstalled).controller.store.get (hashed ⟨10⟩).id = .ok (some (hashedPlan ⟨10⟩).record) := by
  decide +kernel

end Sample

/-! ## The order of removal -/

/-- of duplicates the first is kept: what comes before `b` then is what first occurs before `b` does -/
theorem pair_sublist_eraseDups {β : Type} [DecidableEq β] {front back : List β} {a b : β} (hb : b ∉ front) :
    [a, b].Sublist (front ++ b :: back).eraseDups ↔ a ∈ front := by
  obtain ⟨rest, hsplit⟩ : ∃ rest, (front ++ b :: back).eraseDups = front.eraseDups ++ b :: rest := by
    rw [List.eraseDups_append]
    simp [List.removeAll, hb, List.eraseDups_cons]
  have hnodup := nodup_eraseDups (front ++ b :: back)
  rw [hsplit] at hnodup ⊢
  obtain ⟨-, hright, hdisjoint⟩ := List.nodup_append.1 hnodup
  have hrest : b ∉ rest := (List.nodup_cons.1 hright).1
  constructor
  · intro h
    obtain ⟨l, r, hlr, hl, hr⟩ := List.sublist_append_iff.1 h
    cases l with
    | nil =>
      -- nothing stands between `b` and what follows it
      obtain rfl : [a, b] = r := hlr
      have hmem : b ∈ rest := (List.cons_sublist_cons'.1 hr).elim
        (fun h => h.subset (List.mem_cons_of_mem a List.mem_cons_self))
        fun h => h.2.subset List.mem_cons_self
      exact absurd hmem hrest
    | cons c l =>
      obtain ⟨rfl, -⟩ := List.cons.inj hlr
      exact List.mem_eraseDups.1 (hl.subset List.mem_cons_self)
  · intro ha
    have hleft : [a].Sublist front.eraseDups := List.singleton_sublist.2 (List.mem_eraseDups.2 ha)
    exact hleft.append (List.singleton_sublist.2 List.mem_cons_self)

/-- do the groups of a chain lie one below the other? -/
def Descends (chain : List Key) : Prop := chain.IsChain fun outer inner => inner.level < outer.level

/-- whatever a chain lists behind a group lies below it -/
theorem Descends.before_of_mem {front back : List Key} {inner k : Key} (h : Descends (front ++ inner :: back))
    (hk : k ∈ front ++ inner :: back) (hlevel : inner.level < k.level) : k ∈ front := by
  have hpairwise : (front ++ inner :: back).Pairwise fun outer inner => inner.level < outer.level :=
    (List.isChain_iff_pairwise (R := fun outer inner : Key => inner.level < outer.level)).1 h
  obtain ⟨-, hright, -⟩ := List.pairwise_append.1 hpairwise
  rcases List.mem_append.1 hk with hk | hk
  · exact hk
  · rcases List.mem_cons.1 hk with rfl | hk
    · exact absurd hlevel (Nat.lt_irrefl _)
    · exact absurd ((List.pairwise_cons.1 hright).1 k hk) (Nat.lt_asymm hlevel)

/-- the groups of a plan are listed from the top down -/
theorem Plan.Composes.descends {o : Objective} {device : DeviceId} {adds : Bool} {p : Plan} {cs : List BucketChain}
    {crown : List Element} (h : p.Composes o device adds cs crown) : ∀ chain ∈ p.record.chains, Descends chain := by
  intro chain hchain
  rw [h.assembles.chains] at hchain
  obtain ⟨c, hc, rfl⟩ := List.mem_map.1 hchain
  have hlayered := h.layered c hc
  have hkeys : Descends c.keys := by
    refine hlayered.linked.imp ?_
    rintro outer inner ⟨e, he, hcreates, hwait⟩
    exact hcreates.2 ▸ hlayered.ranked e he inner hwait
  rcases h.assembles.bare_or_top with ⟨rfl, -⟩ | ⟨e, -, rfl, -, -⟩
  · exact hkeys
  · refine hkeys.cons fun k hk => ?_
    rw [hlayered.topped] at hk
    cases hk
    exact h.level_top (List.mem_singleton_self e) ▸ hlayered.low _ hlayered.head

/-- every plan that is made lists its groups from the top down -/
theorem Request.Planned.descends {device : DeviceId} {r : Request} (h : r.Planned device) {p : Plan}
    (hp : r.plan? = some p) : ∀ chain ∈ p.record.chains, Descends chain := by
  obtain ⟨adds, cs, crown, hcomposes⟩ := h.composes hp
  exact hcomposes.descends

namespace Record

variable {r : Record}

theorem mem_distinctKeys {k : Key} : k ∈ r.distinctKeys ↔ ∃ chain ∈ r.chains, k ∈ chain := by
  rw [distinctKeys, List.mem_eraseDups, List.mem_flatten]

/-- the place of the first chain that lists a group -/
def firstChain (r : Record) (k : Key) : Nat := r.chains.findIdx fun chain => k ∈ chain

/-- the chains are cut at the first one that lists a group, and this one is cut at the group -/
theorem exists_first {k : Key} (h : k ∈ r.distinctKeys) :
    ∃ front above below back, r.chains = front ++ (above ++ k :: below) :: back ∧ (∀ q ∈ front, k ∉ q) ∧ k ∉ above := by
  obtain ⟨chain, hchain, hk⟩ := mem_distinctKeys.1 h
  obtain ⟨path, hfirst⟩ : ∃ path, r.chains.find? (fun q => k ∈ q) = some path :=
    Option.isSome_iff_exists.1 (List.find?_isSome.2 ⟨chain, hchain, by simpa using hk⟩)
  obtain ⟨hpath, front, back, hsplit, hfront⟩ := List.find?_eq_some_iff_append.1 hfirst
  simp only [decide_eq_true_eq, Bool.not_eq_true', decide_eq_false_iff_not] at hpath hfront
  obtain ⟨above, below, rfl, habove⟩ := List.eq_append_cons_of_mem hpath
  exact ⟨front, above, below, back, hsplit, hfront, habove⟩

/-- no chain of the front lists the group, so its first chain is this one or a later one -/
theorem firstChain_of_split {k : Key} {front back : List (List Key)} {path : List Key}
    (h : r.chains = front ++ path :: back) (hfront : ∀ q ∈ front, k ∉ q) :
    front.length ≤ r.firstChain k ∧ (r.firstChain k = front.length ↔ k ∈ path) := by
  have hnone : front.findIdx (fun q => k ∈ q) = front.length :=
    List.findIdx_eq_length.2 fun q hq => by simpa using hfront q hq
  rw [firstChain, h, List.findIdx_append, if_neg (by omega), List.findIdx_cons]
  by_cases hk : k ∈ path <;> simp [hk]

/-- some chain of the front lists the group, so its first chain is one of these -/
theorem firstChain_lt_of_mem {k : Key} {front back : List (List Key)} (h : r.chains = front ++ back) {path : List Key}
    (hpath : path ∈ front) (hk : k ∈ path) : r.firstChain k < front.length := by
  have hlt : front.findIdx (fun q => k ∈ q) < front.length := List.findIdx_lt_length.2 ⟨path, hpath, by simpa using hk⟩
  rw [firstChain, h, List.findIdx_append, if_pos hlt]
  exact hlt

/-- a group of a lower layer comes later, unless some chain lists it before any lists the other group -/
theorem pair_sublist_distinctKeys (hdown : ∀ chain ∈ r.chains, Descends chain) {outer inner : Key}
    (hlevel : inner.level < outer.level) (hinner : inner ∈ r.distinctKeys) :
    [outer, inner].Sublist r.distinctKeys ↔ r.firstChain outer ≤ r.firstChain inner := by
  obtain ⟨front, above, below, back, hsplit, hfront, habove⟩ := exists_first hinner
  have hcut : r.distinctKeys = (front.flatten ++ above ++ inner :: (below ++ back.flatten)).eraseDups := by
    rw [distinctKeys, hsplit]
    simp
  have hnew : inner ∉ front.flatten ++ above := by
    rw [List.mem_append, List.mem_flatten]
    rintro (⟨q, hq, hm⟩ | hm)
    · exact hfront q hq hm
    · exact habove hm
  have hpath : Descends (above ++ inner :: below) := hdown _ (hsplit ▸ List.mem_append_right front List.mem_cons_self)
  have hplace : r.firstChain inner = front.length :=
    (firstChain_of_split hsplit hfront).2.2 (List.mem_append_right above List.mem_cons_self)
  rw [hcut, pair_sublist_eraseDups hnew, hplace, List.mem_append, List.mem_flatten]
  constructor
  · rintro (⟨q, hq, hm⟩ | hm)
    · exact Nat.le_of_lt (firstChain_lt_of_mem hsplit hq hm)
    · by_cases hold : ∃ q ∈ front, outer ∈ q
      · obtain ⟨q, hq, hmq⟩ := hold
        exact Nat.le_of_lt (firstChain_lt_of_mem hsplit hq hmq)
      · refine Nat.le_of_eq ((firstChain_of_split hsplit fun q hq hmq => hold ⟨q, hq, hmq⟩).2.2 ?_)
        exact List.mem_append_left _ hm
  · intro hle
    refine or_iff_not_imp_left.2 fun hold => ?_
    obtain ⟨hge, hiff⟩ := firstChain_of_split hsplit fun q hq hmq => hold ⟨q, hq, hmq⟩
    exact hpath.before_of_mem (hiff.1 (Nat.le_antisymm hle hge)) hlevel

end Record

/-- **What is removed, and in which order.** Whenever a removal is answered with success, every group that some chain of
the stored record lists is removed once, and no other. Of two groups that stand next to each other in a chain, and so
point one to the other, the outer one is removed first if and only if no chain that lists the inner one stands before
all chains that list the outer one. -/
theorem removal_order {device : DeviceId} {delay : Nat} {switch : Switch} {store : Store} {metrics : Metrics}
    {before : List Move} {now : Nat} {ticket : Ticket} {o : Objective} (hstore : store.Sound)
    (hlists : store.Lists fun _ chain => Descends chain)
    (h : Allowed (fun m move => move.Admissible device m) (.start device delay switch store metrics)
      (before ++ [.removal now ticket o])) :
    let m := (Moment.start device delay switch store metrics).run before
    let n := m.step (.removal now ticket o)
    ⟨ticket, .removed⟩ ∈ n.controller.replies →
      ∃ record, m.controller.store.get o.id = .ok (some record) ∧
        n.controller.switch.ops = m.controller.switch.ops ++ record.distinctKeys.map .removeGroup ∧
        record.distinctKeys.Nodup ∧ (∀ k, k ∈ record.distinctKeys ↔ ∃ chain ∈ record.chains, k ∈ chain) ∧
        ∀ chain ∈ record.chains, ∀ outer inner, [outer, inner] <:+: chain →
          ([outer, inner].Sublist record.distinctKeys ↔ record.firstChain outer ≤ record.firstChain inner) := by
  intro m n hok
  have hp : ∀ q ∈ m.accepted, q.Planned device := Moment.planned_run (allowed_append.1 h).1
  have hplans : Lists (fun _ chain => Descends chain) m.accepted := fun q hq p hplan => (hp q hq).descends hplan
  obtain ⟨record, hget, hdown, -, -, hswitch⟩ := Moment.of_removed hstore hlists h hplans hok
  refine ⟨record, hget, ?_, nodup_eraseDups _, fun k => Record.mem_distinctKeys, ?_⟩
  · rw [hswitch, Switch.ops_removeGroups]
  · intro chain hchain outer inner hpair
    have hlevel : inner.level < outer.level := by
      obtain ⟨above, below, rfl⟩ := hpair
      have hpairDown : Descends [outer, inner] := (hdown _ hchain).left_of_append.right_of_append
      simpa [Descends] using hpairDown
    have hmem : inner ∈ chain := hpair.subset (List.mem_cons_of_mem _ List.mem_cons_self)
    exact Record.pair_sublist_distinctKeys hdown hlevel (Record.mem_distinctKeys.2 ⟨chain, hchain, hmem⟩)

/-- the one chain of the sample is removed from the top down -/
theorem sample_is_removed_in_order :
    let m := Sample.start.run Sample.hashedInstalled
    let n := m.step (.removal 0 1 (Sample.hashed ⟨10⟩))
    ⟨1, .removed⟩ ∈ n.controller.replies ∧
      n.controller.switch.ops = m.controller.switch.ops ++
        [.removeGroup (Key.l3Ecmp 4), .removeGroup (Sample.outer ⟨10⟩).key, .removeGroup (Sample.inner ⟨10⟩).key] := by
  obtain ⟨h, hok⟩ := Sample.hashed_removed
  have hget := Sample.record_of_hashedInstalled
  have hkeys : (Sample.hashedPlan ⟨10⟩).record.distinctKeys =
      [Key.l3Ecmp 4, (Sample.outer ⟨10⟩).key, (Sample.inner ⟨10⟩).key] := by
    decide +kernel
  refine ⟨hok, ?_⟩
  unfold Sample.start at h hok hget ⊢
  obtain ⟨record, hrecord, hops, -⟩ := removal_order Store.sound_empty (.empty _) h hok
  rw [hget] at hrecord
  cases hrecord
  rw [hkeys] at hops
  exact hops

/-! ## An inner group that goes first -/

namespace Sample

/-- the next hop on another way through the same port -/
def dst' : MacAddress := ⟨#v[0, 0, 94, 0, 83, 3]⟩

/-- two buckets that rewrite the destination differently, and leave through one port in one VLAN -/
def forked : Objective :=
  ⟨4, .hashed, [bucket ⟨10⟩, ⟨[.setEthDst dst', .setVlanId ⟨10⟩, .output ⟨7⟩]⟩], ⟨"sample"⟩, none⟩

def outer' : Descriptor :=
  forked.descriptor device .indirect [⟨⟨[.setEthDst dst', .setVlanId ⟨10⟩, .group (inner ⟨10⟩).id]⟩⟩]
    (Key.l3Unicast device .zero dst' ⟨7⟩) (GroupId.l3Unicast .zero dst' ⟨7⟩)

/-- both chains end in one interface group -/
def chain' : BucketChain :=
  ⟨inner ⟨10⟩, [.after outer' [(inner ⟨10⟩).key] false], outer', [outer'.key, (inner ⟨10⟩).key]⟩

def forkedPlan : Plan := forked.planEcmp device [chain ⟨10⟩, chain'] false

/-- all four groups are asked for and confirmed -/
def forkedInstalled : List Move :=
  [.handle (.request 0 (.install 0 forked forkedPlan)), .work] ++ confirmed (inner ⟨10⟩).key ++
    [.work, .work, .work] ++ confirmed (outer ⟨10⟩).key ++ .work :: confirmed outer'.key ++ [.work, .work] ++
    confirmed (Key.l3Ecmp 4) ++ [.work]

end Sample

/-- **An inner group goes first.** Two chains share their interface group. It is removed with the first of them, before
the L3 unicast group of the second one, which still points to it when it is gone. -/
theorem inner_removed_first :
    let m := Sample.start.run Sample.forkedInstalled
    let n := m.step (.removal 0 1 Sample.forked)
    let keys := [Key.l3Ecmp 4, (Sample.outer ⟨10⟩).key, (Sample.inner ⟨10⟩).key, Sample.outer'.key]
    Allowed (fun m move => move.Admissible Sample.device m) Sample.start
        (Sample.forkedInstalled ++ [.removal 0 1 Sample.forked]) ∧
      ⟨1, .removed⟩ ∈ n.controller.replies ∧
      n.controller.switch.ops = m.controller.switch.ops ++ keys.map .removeGroup ∧
      m.controller.store.get 4 = .ok (some Sample.forkedPlan.record) ∧
      [Sample.outer'.key, (Sample.inner ⟨10⟩).key] <:+: Sample.forkedPlan.record.chains[1] ∧
      ¬[Sample.outer'.key, (Sample.inner ⟨10⟩).key].Sublist keys ∧
      (m.controller.switch.removeGroups Sample.device (keys.take 3)).group? Sample.device Sample.outer'.key =
        some Sample.outer' ∧
      (m.controller.switch.removeGroups Sample.device (keys.take 3)).group? Sample.device (Sample.inner ⟨10⟩).key =
        none := by
  intro m n keys
  have hplanned : (Request.install 0 Sample.forked Sample.forkedPlan).Planned Sample.device := ⟨0, rfl⟩
  have hinstalled : Allowed (fun m move => move.Admissible Sample.device m) Sample.start Sample.forkedInstalled :=
    ⟨⟨hplanned, List.not_mem_nil⟩, allowed_admissible (by decide +kernel) _⟩
  exact ⟨allowed_append.2 ⟨hinstalled, ⟨trivial, by decide +kernel⟩, trivial⟩, by decide +kernel, by decide +kernel,
    by decide +kernel, ⟨[Key.l3Ecmp 4], [], rfl⟩, by decide +kernel, by decide +kernel, by decide +kernel⟩

/-! ## The top-level group -/

theorem Planner.topKey_of_build {planner : Planner} {o : Objective} {p : Plan}
    (hk : o.kind = .hashed ∨ o.kind = .broadcast) (h : (planner.build o).1 = .ok p) : p.topKey = o.topKey := by
  obtain ⟨cs, crown, -, hcomposes⟩ := composes_of_build h
  exact hcomposes.topKey_eq hk

/-- the chains of hashed and broadcast objectives begin with one key, whatever their buckets are -/
theorem Request.Planned.topped {device : DeviceId} {r : Request} (h : r.Planned device)
    (hk : r.objective.kind = .hashed ∨ r.objective.kind = .broadcast) {p : Plan} (hp : r.plan? = some p) :
    ∀ chain ∈ p.record.chains, chain.head? = some r.objective.topKey := by
  obtain ⟨adds, cs, crown, hcomposes⟩ := h.composes hp
  rw [← hcomposes.topKey_eq hk]
  exact hcomposes.topped

/-- **What a removal leaves of the top-level group.** Let all requests for one objective be of one kind, hashed or
broadcast, whatever else is requested. Once a removal of the objective is answered with success there is no record of
it, and its top-level group is on the device, or held there, if and only if it was so before and the record had no chain
left. -/
theorem removal_takes_listed_top {device : DeviceId} {delay : Nat} {switch : Switch} {store : Store}
    {metrics : Metrics} {before : List Move} {now : Nat} {ticket : Ticket} {o : Objective} (hstore : store.Sound)
    (hlists : store.Lists fun n chain => n = o.id → chain.head? = some o.topKey)
    (h : Allowed (fun m move => move.Admissible device m) (.start device delay switch store metrics)
      (before ++ [.removal now ticket o]))
    (hkind : o.kind = .hashed ∨ o.kind = .broadcast)
    (hsame : ∀ q ∈ ((Moment.start device delay switch store metrics).run before).accepted,
      q.objective.id = o.id → q.objective.kind = o.kind) :
    let m := (Moment.start device delay switch store metrics).run before
    let n := m.step (.removal now ticket o)
    ⟨ticket, .removed⟩ ∈ n.controller.replies →
      n.controller.store.get o.id = .ok none ∧
        ∃ record, m.controller.store.get o.id = .ok (some record) ∧
          (n.controller.Stands o.topKey ↔ m.controller.Stands o.topKey ∧ record.chains = []) ∧
          (n.controller.Knows o.topKey ↔ m.controller.Knows o.topKey ∧ record.chains = []) := by
  intro m n hok
  have hp : ∀ q ∈ m.accepted, q.Planned device := Moment.planned_run (allowed_append.1 h).1
  have hplans : Lists (fun n chain => n = o.id → chain.head? = some o.topKey) m.accepted := by
    intro q hq p hplan chain hchain hid
    have hqkind := hsame q hq hid
    have htop : q.objective.topKey = o.topKey := by rw [Objective.topKey, Objective.topKey, hqkind, hid]
    exact htop ▸ (hp q hq).topped (hqkind ▸ hkind) hplan chain hchain
  obtain ⟨record, hget, htopped, hdevice, hremoved, hswitch⟩ := Moment.of_removed hstore hlists h hplans hok
  -- the key is among those removed as soon as there is a chain
  have hlisted : o.topKey ∉ record.distinctKeys ↔ record.chains = [] := by
    rw [Record.mem_distinctKeys]
    constructor
    · intro hnone
      refine List.eq_nil_iff_forall_not_mem.2 fun chain hchain => hnone ⟨chain, hchain, ?_⟩
      exact List.mem_of_mem_head? (htopped chain hchain rfl)
    · rintro hnil ⟨chain, hchain, -⟩
      rw [hnil] at hchain
      cases hchain
  refine ⟨?_, record, hget, ?_, ?_⟩
  · rw [hremoved, Store.get_remove, if_pos rfl]
  · rw [Controller.Stands, hdevice, hswitch, Switch.stands_removeGroups_iff, ← hlisted]
    exact and_congr_right fun _ => not_congr (and_iff_right rfl)
  · rw [Controller.Knows, hdevice, hswitch, Switch.knows_removeGroups_iff, ← hlisted]
    exact and_congr_right fun _ => not_congr (and_iff_right rfl)

/-- the sample's record has its chain when the objective is removed, and its top-level group is gone then -/
theorem top_of_sample_is_removed :
    let m := Sample.start.run Sample.hashedInstalled
    let n := m.step (.removal 0 1 (Sample.hashed ⟨10⟩))
    ⟨1, .removed⟩ ∈ n.controller.replies ∧ m.controller.Stands (Key.l3Ecmp 4) ∧
      n.controller.store.get 4 = .ok none ∧ ¬n.controller.Knows (Key.l3Ecmp 4) := by
  obtain ⟨h, hok⟩ := Sample.hashed_removed
  have hget := Sample.record_of_hashedInstalled
  have hsame : ∀ q ∈ (Sample.start.run Sample.hashedInstalled).accepted,
      q.objective.id = (Sample.hashed ⟨10⟩).id → q.objective.kind = (Sample.hashed ⟨10⟩).kind := by
    decide +kernel
  have hstands : (Sample.start.run Sample.hashedInstalled).controller.Stands (Key.l3Ecmp 4) := by decide +kernel
  refine ⟨hok, hstands, ?_⟩
  unfold Sample.start at h hsame hok hget ⊢
  obtain ⟨hnone, record, hrecord, -, hknows⟩ :=
    removal_takes_listed_top Store.sound_empty (.empty _) h (Or.inl rfl) hsame hok
  rw [hget] at hrecord
  cases hrecord
  refine ⟨hnone, fun hn => ?_⟩
  cases (hknows.1 hn).2

/-! ## A group that is left -/

namespace Sample

/-- all events have been delivered, and the only bucket of the objective is removed -/
def emptied : List Move :=
  hashedInstalled ++ [.switch (.scramble []), .handle (.request 0 (.removeBucket 1 (hashed ⟨10⟩) ⟨7⟩))]

end Sample

/-- **An empty group outlives its objective.** The last bucket of a hashed objective is removed, and then the objective.
Both requests are answered with success and the record is gone, but the empty ECMP group is still on the device, and
nobody has asked the device to remove any group. -/
theorem empty_group_outlives_record :
    let m := Sample.start.run Sample.emptied
    let n := m.step (.removal 0 2 (Sample.hashed ⟨10⟩))
    Allowed (fun m move => move.Admissible Sample.device m) Sample.start
        (Sample.emptied ++ [.removal 0 2 (Sample.hashed ⟨10⟩)]) ∧
      m.Idle ∧ m.controller.tracker.pendingKeys = [] ∧ m.controller.switch.events = [] ∧
      n.controller.replies = [⟨0, .installed (GroupId.l3Ecmp 4)⟩, ⟨1, .installed (GroupId.l3Ecmp 4)⟩, ⟨2, .removed⟩] ∧
      n.controller.store.get 4 = .ok none ∧ (Sample.hashed ⟨10⟩).topKey = Key.l3Ecmp 4 ∧
      n.controller.Stands (Key.l3Ecmp 4) ∧ n.controller.switch.ops = m.controller.switch.ops := by
  intro m n
  have hplanned : (Request.removeBucket 1 (Sample.hashed ⟨10⟩) ⟨7⟩).Planned Sample.device := rfl
  have hemptied : Allowed (fun m move => move.Admissible Sample.device m) Sample.start Sample.emptied :=
    allowed_append.2 ⟨Sample.admissible_hashedInstalled, trivial, ⟨hplanned, by decide +kernel⟩, trivial⟩
  exact ⟨allowed_append.2 ⟨hemptied, ⟨trivial, by decide +kernel⟩, trivial⟩, by decide +kernel, by decide +kernel,
    by decide +kernel, by decide +kernel, by decide +kernel, by decide +kernel, by decide +kernel, by decide +kernel⟩

end FlowGroups
