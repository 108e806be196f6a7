/-
An objective that is submitted once more. Its plan is made anew, and unless some bucket needs a VPN group, whose index
is fresh each time, it is the plan it was before. If nothing is pending then every group of this plan stands, so that
each one is confirmed as soon as it is looked at, and the objective is answered before its handler ends.

- `Settled`, `Retains`: a group that stands and is not marked as requested; without removals this is never lost.
- `Carried`, `Underway.step`: an objective that is installed alone. Each of its keys is pending or settled until it is
  given up, and once it is answered the record is the one of its plan.
- `Replaying`, `Replaying.process`: the plan of settled groups is worked off, and only the tracker changes.
- `resubmission_changes_nothing`: the same answer, no call to the switch, the same records, and nothing pending.
- `resubmission_is_noticed`: with a label, after a bucket was added, or after a late report, this is not so.
-/
import FlowGroups.Proofs.Outstanding
import FlowGroups.Proofs.Progress

namespace FlowGroups

/-! ## Plans without labels -/

/-- a hashed objective of which no bucket needs a VPN group, or one of another kind -/
def Objective.Unlabelled (o : Objective) : Prop := o.kind = .hashed → ∀ t ∈ o.treatments, t.mplsPushes = 0

/-- without labels no index is allocated, and none shows in the chains -/
theorem Objective.bucketChains_of_unlabelled {o : Objective} {device : DeviceId} {ts : List Treatment}
    (h : ∀ t ∈ ts, t.mplsPushes = 0) (i : UInt32) :
    o.bucketChains device ts i = ((o.bucketChains device ts 0).1, i) := by
  induction ts with
  | nil => rfl
  | cons t ts ih =>
    have hone : o.bucketChain device t i = ((o.bucketChain device t 0).1, i) := by
      simp only [bucketChain, h t List.mem_cons_self]
      cases o.pair device t false <;> rfl
    have hzero : (o.bucketChain device t 0).2 = 0 := by
      simp only [bucketChain, h t List.mem_cons_self]
      cases o.pair device t false <;> rfl
    have hrest := ih fun u hu => h u (List.mem_cons_of_mem t hu)
    have hsplit : o.bucketChain device t 0 = ((o.bucketChain device t 0).1, 0) := Prod.ext rfl hzero
    rw [bucketChains, bucketChains, hone, hsplit]
    cases (o.bucketChain device t 0).1 with
    | error e => rfl
    | ok chain =>
      simp only [hrest]
      rcases o.bucketChains device ts 0 with ⟨chains | e, j⟩ <;> rfl

/-- **The plan of an objective without labels is always the same.** -/
theorem Planner.build_of_unlabelled {o : Objective} (h : o.Unlabelled) (device : DeviceId) (i j : UInt32) :
    ((Planner.mk device i).build o).1 = ((Planner.mk device j).build o).1 := by
  unfold build
  split
  · rfl
  · rfl
  · rename_i hk
    split_ifs
    · rfl
    · have hchains : ∀ n, o.bucketChains device o.treatments n = ((o.bucketChains device o.treatments 0).1, n) :=
        Objective.bucketChains_of_unlabelled (h hk)
      simp only [planHashed, hchains i, hchains j]
      cases (o.bucketChains device o.treatments 0).1 <;> rfl
  · rfl

/-! ## Groups that are settled -/

namespace Controller

/-- the group stands, and is not marked as requested -/
def Settled (c : Controller) (k : Key) : Prop := c.Stands k ∧ k ∉ c.requested

/-- whoever asks for a settled group is told at once that it is there -/
theorem submit_of_settled {c : Controller} {d : Descriptor} (h : c.Settled d.key) :
    c.submit d = (c, [.resolve d.key]) := by
  rw [submit, if_neg h.2, if_pos (stands_iff.1 h.1)]

theorem release_of_settled {c : Controller} {k : Key} (h : c.Settled k) : c.release k = c := by
  have hall : (c.requested.filter fun j => j ≠ k) = c.requested := by
    rw [List.filter_eq_self]
    intro j hj
    have hjk : j ≠ k := by
      rintro rfl
      exact h.2 hj
    simpa using hjk
  rw [release, hall]

/-- what every item of work preserves, with the queue it leaves, holds once the queue has run dry -/
theorem drain_keeps {P : Controller → List Work → Prop}
    (hstep : ∀ c w ws, P c (w :: ws) → P (c.process w).1 (ws ++ (c.process w).2)) {c : Controller} {ws : List Work}
    (h : P c ws) : ∃ d, P d [] ∧ c.drain ws = d.updateGauges := by
  induction c, ws using drain.induct with
  | case1 c => exact ⟨c, h, by rw [drain]⟩
  | case2 c w ws ih =>
    rw [drain]
    exact ih (hstep c w ws h)

end Controller

/-! ## What a change leaves settled -/

/-- every group that stands goes on standing under its id, and only keys of others are marked as requested -/
structure Controller.Retains (c d : Controller) : Prop where
  id : ∀ k, c.Stands k → (d.group? k).map (·.id) = (c.group? k).map (·.id)
  requested : ∀ k ∈ d.requested, k ∈ c.requested ∨ ¬c.Stands k

namespace Controller.Retains

variable {c d : Controller}

theorem of_eq (hd : d.device = c.device) (hs : d.switch = c.switch) (hr : ∀ k ∈ d.requested, k ∈ c.requested) :
    c.Retains d := by
  refine ⟨fun k _ => ?_, fun k hk => Or.inl (hr k hk)⟩
  rw [group?, group?, hd, hs]

theorem refl (c : Controller) : c.Retains c := .of_eq rfl rfl fun _ hk => hk

theorem stands (h : c.Retains d) {k : Key} (hk : c.Stands k) : d.Stands k := by
  have hsome := congrArg Option.isSome (h.id k hk)
  rw [Option.isSome_map, Option.isSome_map, stands_iff.1 hk] at hsome
  exact stands_iff.2 hsome

theorem settled (h : c.Retains d) {k : Key} (hk : c.Settled k) : d.Settled k := by
  refine ⟨h.stands hk.1, fun hr => ?_⟩
  rcases h.requested k hr with hr | hs
  · exact hk.2 hr
  · exact hs hk.1

end Controller.Retains

namespace Controller

theorem retains_asked {c : Controller} {d : Descriptor} (hs : ¬c.Stands d.key) : c.Retains (c.asked d) := by
  refine ⟨fun k hk => ?_, fun k hk => ?_⟩
  · have hne : (c.device, k) ≠ (d.device, d.key) := by
      intro heq
      rw [(Prod.mk.inj heq).2] at hk
      exact hs hk
    exact congrArg (Option.map (·.id)) (c.switch.get?_addGroup_of_ne hne).1
  · rcases List.mem_cons.1 hk with rfl | hk
    · exact Or.inr hs
    · exact Or.inl hk

theorem retains_process (c : Controller) (w : Work) : c.Retains (c.process w).1 := by
  have hdone := c.performs w
  generalize c.process w = x at hdone ⊢
  cases hdone with
  | awaited | found => exact .refl c
  | ask hw hr hs => exact retains_asked hs
  | addBuckets => exact ⟨fun k _ => Switch.id_editBuckets _ _ _ _ _, fun k hk => Or.inl hk⟩
  | confirm k => exact .of_eq (c.same_confirm k).device (c.confirm_spares k).1 (c.same_confirm k).requested

end Controller

/-! ## An objective that is installed alone -/

namespace Tracker

/-- a key that objectives wait under has some -/
def Peopled (t : Tracker) : Prop := ∀ k rs, t.objectives.get? k = some rs → rs.list ≠ []

theorem lasting_peopled (ok : Request → Prop) : Lasting ok Peopled where
  register t r p _ _ h k rs hk := h k rs (objectives_registerAll t p.topKey p.elements ▸ hk)
  install t ticket o p now _ h k rs hk := by
    simp only [registerObjective, Registry.get?_insert] at hk
    split_ifs at hk
    · cases hk
      exact List.append_ne_nil_of_right_ne_nil _ (List.cons_ne_nil _ _)
    · exact h k rs hk
  advance _ _ _ _ h := h
  discharge _ _ h k rs hk := h k rs (Registry.of_get?_erase hk).2
  expire _ now h k rs hk := h k rs (objectives_expire hk)
  take t n h k rs hk := by
    obtain ⟨old, hold, -, hne⟩ := (t.outlives_takeObjective n).2 k rs hk
    exact hne (h k old hold)

/-- an objective that is registered where none waits is the only one -/
theorem get?_registerObjective_of_empty {t : Tracker} (h : t.objectives = .empty) (k : Key) (r : Registrant) (now : Nat)
    (j : Key) : (t.registerObjective k r now).objectives.get? j =
      if j = k then some ⟨t.nextGeneration, [r]⟩ else none := by
  simp only [registerObjective, h, Registry.get?_insert]
  rfl

/-- where no element waits, all that is ready and all that waits was registered just now -/
theorem mem_of_registerAll {t : Tracker} (h : t.waiting = []) (owner : Key) (es : List Element) :
    (∀ e ∈ (t.registerAll owner es).2, e ∈ es) ∧ ∀ w ∈ (t.registerAll owner es).1.waiting, w.element ∈ es := by
  have hperm := t.elements_registerAll owner es
  rw [show t.elements = [] from List.map_eq_nil_iff.2 h, List.append_nil] at hperm
  exact ⟨fun e he => hperm.subset (List.mem_append_left _ he),
    fun w hw => hperm.subset (List.mem_append_right _ (List.mem_map_of_mem hw))⟩

/-- where objectives wait under one key only, all of them are given up, or nothing is -/
theorem expire_of_one {t : Tracker} {k : Key} (h : ∀ j rs, t.objectives.get? j = some rs → j = k) (now : Nat) :
    (∃ rs, t.objectives.get? k = some rs ∧ ∀ r ∈ rs.list, r ∈ (t.expire now).2.flatMap Prod.snd) ∨
      ((t.expire now).1.groups = t.groups ∧ (t.expire now).1.objectives = t.objectives) := by
  let s : Tracker := { t with expiry := (t.expiry.popExpired now).2 }
  have hall : ∀ es, (∃ rs, t.objectives.get? k = some rs ∧
      ∀ r ∈ rs.list, r ∈ (s.expireEntries es).2.flatMap Prod.snd) ∨ (s.expireEntries es).1 = s := by
    intro es
    induction es with
    | nil => exact Or.inr rfl
    | cons e es ih =>
      rcases expireEntry_cases s e with ⟨rs, hrs, he⟩ | he
      · obtain rfl := h e.key rs hrs
        refine Or.inl ⟨rs, hrs, fun r hr => ?_⟩
        simp only [expireEntries, he, Option.toList_some, List.singleton_append, List.flatMap_cons]
        exact List.mem_append_left _ hr
      · simp only [expireEntries, he, Option.toList_none, List.nil_append]
        exact ih
  refine (hall (t.expiry.popExpired now).1).imp_right fun hs => ?_
  have hexpire : (t.expire now).1 = s := hs
  rw [hexpire]
  exact ⟨rfl, rfl⟩

end Tracker

/-- whoever runs out of time is answered with failure, and no answer is taken back -/
theorem Controller.failed_expire (c : Controller) (now : Nat) :
    (∀ reply ∈ c.replies, reply ∈ (c.expire now).replies) ∧ ∀ r ∈ (c.tracker.expire now).2.flatMap Prod.snd,
      ⟨r.ticket, .failed .installationFailed⟩ ∈ (c.expire now).replies := by
  have hkeep : ∀ (d : Controller) r, ∀ reply ∈ d.replies ++ [⟨r.ticket, .failed .installationFailed⟩],
      reply ∈ (d.abandonOne r).replies := by
    intro d r reply hreply
    rcases d.abandonOne_cases r with ⟨a, -, he⟩ | ⟨-, he⟩
    · rw [he]
      exact List.mem_append_left _ hreply
    · rw [he]
      exact hreply
  have hall := expire_keeps (c := c) (P := fun out d => (∀ reply ∈ c.replies, reply ∈ d.replies) ∧
    ∀ r ∈ (c.tracker.expire now).2.flatMap Prod.snd,
      r ∈ out ∨ (⟨r.ticket, .failed .installationFailed⟩ : Reply) ∈ d.replies) ?_ (fun _ hd => hd)
    ⟨fun _ hreply => hreply, fun r hr => Or.inl hr⟩
  · exact ⟨hall.1, fun r hr => (hall.2 r hr).resolve_left List.not_mem_nil⟩
  · rintro s out d ⟨hold, hfailed⟩
    refine ⟨fun reply hreply => hkeep d s reply (List.mem_append_left _ (hold reply hreply)), fun r hr => ?_⟩
    rcases hfailed r hr with hout | hdone
    · rcases List.mem_cons.1 hout with rfl | hout
      · exact Or.inr (hkeep d r _ (List.mem_append_right _ List.mem_cons_self))
      · exact Or.inl hout
    · exact Or.inr (hkeep d s _ (List.mem_append_left _ hdone))

/-- What becomes of a request to install an objective while no other objective waits: it fails, or each of its keys goes
on being pending until it is settled. -/
structure Carried (ticket : Ticket) (o : Objective) (p : Plan) (c : Controller) : Prop where
  aside : c.deferred.get? o.id = none
  waits : ∀ k rs, c.tracker.objectives.get? k = some rs →
    k = p.topKey ∧ ∀ r ∈ rs.list, r.objective = o ∧ r.record = p.record
  answered : ∀ id, ⟨ticket, .installed id⟩ ∈ c.replies →
    (c.group? p.topKey).map (·.id) = some id ∧ c.store.get o.id = .ok (some p.record)
  live : (∃ e, ⟨ticket, .failed e⟩ ∈ c.replies) ∨
    ((∀ rs, c.tracker.objectives.get? p.topKey = some rs → ∃ r ∈ rs.list, r.ticket = ticket) ∧
      ∀ d ∈ p.descriptors, d.key ∈ c.tracker.pendingKeys ∨ c.Settled d.key)

namespace Carried

variable {ticket : Ticket} {o : Objective} {p : Plan} {c d : Controller}

/-- the answer names the group that stands -/
theorem group_of_reply (h : Carried ticket o p c) (hd : c.Retains d) {id : GroupId}
    (hid : ⟨ticket, .installed id⟩ ∈ c.replies) : (d.group? p.topKey).map (·.id) = some id := by
  have hgroup := (h.answered id hid).1
  have hstands : c.Stands p.topKey := by
    rw [Controller.stands_iff, ← Option.isSome_map, hgroup]
    rfl
  rw [hd.id _ hstands, hgroup]

/-- only the groups and the marks change -/
theorem frame (h : Carried ticket o p c) (ht : d.tracker = c.tracker) (hf : d.deferred = c.deferred)
    (hr : d.replies = c.replies) (hs : d.store = c.store) (hd : c.Retains d) : Carried ticket o p d := by
  refine ⟨hf ▸ h.aside, ht ▸ h.waits, fun id hid => ?_, ?_⟩
  · rw [hr] at hid
    rw [hs]
    exact ⟨h.group_of_reply hd hid, (h.answered id hid).2⟩
  · rw [hr, ht]
    exact h.live.imp_right fun hl => ⟨hl.1, fun e he => (hl.2 e he).imp_right hd.settled⟩

/-- a key that stands is pending no longer, but settled -/
theorem resolved {k : Key} {t : Tracker} (h : Carried ticket o p c) (hk : c.Stands k)
    (hobjectives : ∀ j rs, t.objectives.get? j = some rs → c.tracker.objectives.get? j = some rs)
    (hpending : ∀ j, j ≠ k → j ∈ c.tracker.pendingKeys → j ∈ t.pendingKeys) :
    Carried ticket o p { c.release k with tracker := t } := by
  have hretains : c.Retains { c.release k with tracker := t } :=
    .of_eq rfl rfl fun j hj => List.mem_of_mem_filter hj
  refine ⟨h.aside, fun j rs hj => h.waits j rs (hobjectives j rs hj), h.answered, h.live.imp_right ?_⟩
  rintro ⟨htop, hkeys⟩
  refine ⟨fun rs hrs => htop rs (hobjectives _ rs hrs), fun e he => ?_⟩
  by_cases hek : e.key = k
  · refine Or.inr ⟨hretains.stands (hek ▸ hk), fun hr => ?_⟩
    have := (List.mem_filter.1 hr).2
    simp [hek] at this
  · exact (hkeys e he).imp (hpending e.key hek) hretains.settled

/-- a registrant is answered once its group stands -/
theorem recorded {r : Registrant} (h : Carried ticket o p c) (hfits : p.record.Fits) (hown : p.record.objective = o.id)
    (hk : c.Stands p.topKey) (hr : r.record = p.record) : Carried ticket o p (c.recorded p.topKey r) := by
  refine ⟨h.aside, h.waits, fun id hid => ⟨?_, ?_⟩, ?_⟩
  · rcases List.mem_append.1 hid with hid | hid
    · exact (h.answered id hid).1
    · obtain ⟨e, he⟩ := Option.isSome_iff_exists.1 (Controller.stands_iff.1 hk)
      have hreply := congrArg Reply.outcome (List.mem_singleton.1 hid)
      simp only [Outcome.installed.injEq, he, Option.map_some, Option.getD_some] at hreply
      have hsame : (c.recorded p.topKey r).group? p.topKey = c.group? p.topKey := rfl
      rw [hsame, he, hreply]
      rfl
  · rw [Controller.recorded, hr, Store.get_put hfits, if_pos hown.symm]
  · refine h.live.imp_left ?_
    rintro ⟨e, he⟩
    exact ⟨e, List.mem_append_left _ he⟩

theorem confirm {k : Key} (h : Carried ticket o p c) (hfits : p.record.Fits) (hown : p.record.objective = o.id)
    (hk : c.Stands k) : Carried ticket o p (c.confirm k).1 := by
  rcases c.confirm_cases k with ⟨ids, -, he⟩ | ⟨rs, -, ho, he⟩ | he
  · rw [he]
    exact h.resolved hk (fun _ _ hj => hj) fun j hj => Tracker.pending_advance ids hj
  · obtain ⟨rfl, hlist⟩ := h.waits k rs ho
    rw [he]
    have hdischarged : Carried ticket o p { c.release p.topKey with tracker := c.tracker.discharge p.topKey } :=
      h.resolved hk (fun j rs hj => (Registry.of_get?_erase hj).2) fun j hj => Tracker.pending_discharge hj
    refine (Controller.completeAll_keeps (P := fun out d _ => Carried ticket o p d ∧ d.Stands p.topKey ∧
      ∀ r ∈ out, r.objective = o ∧ r.record = p.record) ?_ ⟨hdischarged, hk, hlist⟩).1
    rintro r out d - ⟨hd, hstands, hout⟩
    obtain ⟨hobjective, hrecord⟩ := hout r List.mem_cons_self
    have hnone : d.deferred.get? r.objective.id = none := by
      rw [hobjective]
      exact hd.aside
    rw [Controller.complete_of_none hnone]
    exact ⟨hd.recorded hfits hown hstands hrecord, hstands, fun s hs => hout s (List.mem_cons_of_mem r hs)⟩
  · rw [he]
    exact h.resolved hk (fun _ _ hj => hj) fun _ _ hj => hj

theorem process {w : Work} (h : Carried ticket o p c) (hfits : p.record.Fits) (hown : p.record.objective = o.id)
    (hw : ∀ k, w = .resolve k → c.Stands k) : Carried ticket o p (c.process w).1 := by
  have hretains := c.retains_process w
  have hdone := c.performs w
  generalize c.process w = x at hretains hdone ⊢
  cases hdone with
  | awaited | found => exact h
  | ask | addBuckets => exact h.frame rfl rfl rfl rfl hretains
  | confirm k => exact h.confirm hfits hown (hw k rfl)

/-- when its time runs out the request fails, or nothing happens to it -/
theorem expire (h : Carried ticket o p c) (now : Nat) : Carried ticket o p (c.expire now) := by
  obtain ⟨⟨hd, hs, hstore, ht⟩, hdeferred, hrequested, hreplies⟩ := c.expire_spares now
  obtain ⟨hold, hfailed⟩ := c.failed_expire now
  have hretains : c.Retains (c.expire now) := .of_eq hd hs hrequested
  refine ⟨hdeferred o.id h.aside, fun k rs hk => ?_, fun id hid => ?_, ?_⟩
  · rw [ht] at hk
    exact h.waits k rs (Tracker.objectives_expire hk)
  · have hmem : ⟨ticket, .installed id⟩ ∈ c.replies := by
      refine (hreplies _ hid).resolve_right ?_
      rintro ⟨e, he⟩
      cases he
    rw [hstore]
    exact ⟨h.group_of_reply hretains hmem, (h.answered id hmem).2⟩
  · rcases h.live with ⟨e, he⟩ | ⟨htop, hkeys⟩
    · exact Or.inl ⟨e, hold _ he⟩
    · rcases Tracker.expire_of_one (fun k rs hk => (h.waits k rs hk).1) now with ⟨rs, hrs, hall⟩ | ⟨hg, ho⟩
      · obtain ⟨r, hr, rfl⟩ := htop rs hrs
        exact Or.inl ⟨_, hfailed r (hall r hr)⟩
      · have hpending : (c.expire now).tracker.pendingKeys = c.tracker.pendingKeys := by
          rw [ht, Tracker.pendingKeys, Tracker.pendingKeys, hg, ho]
        rw [hpending, ht, ho]
        exact Or.inr ⟨htop, fun e he => (hkeys e he).imp_right hretains.settled⟩

/-- no request begins -/
theorem opening {s : Stimulus} (h : Carried ticket o p c) (hs : s.request? = none) :
    Carried ticket o p (c.opening s).1 := by
  cases s with
  | request now r => cases hs
  | event e =>
    obtain ⟨kind, k⟩ := e
    cases kind with
    | added => exact h
    | error => exact h
    | removed => exact h.frame rfl rfl rfl rfl (.of_eq rfl rfl fun j hj => List.mem_of_mem_filter hj)
  | sweep => exact h
  | expire now => exact h.expire now

end Carried

/-- a request to install an objective is on its way, and whatever is resolved stands -/
structure Underway (device : DeviceId) (ticket : Ticket) (o : Objective) (p : Plan) (m : Moment) : Prop where
  steady : Steady device m
  resolves : ∀ k, .resolve k ∈ m.queue → m.controller.Stands k
  carried : Carried ticket o p m.controller

namespace Underway

variable {device : DeviceId} {ticket : Ticket} {o : Objective} {p : Plan} {m : Moment}

theorem work (h : Underway device ticket o p m) (hfits : p.record.Fits) (hown : p.record.objective = o.id) :
    Underway device ticket o p (m.step .work) := by
  have hsteady := h.steady.work
  cases hq : m.queue with
  | nil =>
    rw [Moment.step_work_nil hq] at hsteady ⊢
    exact ⟨hsteady, h.resolves, h.carried.frame rfl rfl rfl rfl (.of_eq rfl rfl fun _ hk => hk)⟩
  | cons w ws =>
    have hretains := m.controller.retains_process w
    have hnew : ∀ k, .resolve k ∈ (m.controller.process w).2 → m.controller.Stands k := by
      intro k hk
      rcases m.controller.process_switch w with ⟨d, -, -, -, he⟩ | ⟨-, -, -, -, hresolve⟩
      · rw [he] at hk
        cases hk
      · exact hresolve k hk
    rw [Moment.step_work hq] at hsteady ⊢
    refine ⟨hsteady, fun k hk => hretains.stands ?_, h.carried.process hfits hown fun k hk => ?_⟩
    · rcases List.mem_append.1 hk with hk | hk
      · exact h.resolves k (hq ▸ List.mem_cons_of_mem w hk)
      · exact hnew k hk
    · exact h.resolves k (hq ▸ hk ▸ List.mem_cons_self)

theorem handle (h : Underway device ticket o p m) {s : Stimulus} (hidle : m.Idle) (hs : s.request? = none)
    (ht : (Move.handle s).Truthful m) : Underway device ticket o p (m.begin s) := by
  obtain ⟨hr, ha⟩ := Move.of_silent (show (Move.handle s).request? = none from hs)
  refine ⟨h.steady.begin hidle (ha device m), fun k hk => ?_, h.carried.opening hs⟩
  have hstands : m.controller.Stands k := by
    obtain ⟨-, ⟨-, hresolve⟩ | ⟨ks, -, hnone⟩⟩ := m.controller.opening_switch s
    · rcases hresolve k hk with hstands | rfl
      · exact hstands
      · exact ht k rfl
    · rw [Moment.begin, hnone] at hk
      cases hk
  exact ((Controller.same_opening hr).stands k).2 hstands

/-- **One move.** -/
theorem step (h : Underway device ticket o p m) (hfits : p.record.Fits) (hown : p.record.objective = o.id)
    {move : Move} (hsilent : move.request? = none) (ht : move.Truthful m) :
    Underway device ticket o p (m.step move) := by
  cases move with
  | work => exact h.work hfits hown
  | handle s =>
    rw [Moment.step]
    split_ifs with hidle
    · exact h.handle hidle hsilent ht
    · exact h
  | switch sm =>
    have hswitch : ¬(Move.switch sm).removes := Bool.false_ne_true
    have hretains : m.controller.Retains (m.step (.switch sm)).controller := by
      refine ⟨fun k hk => ?_, fun k hk => Or.inl hk⟩
      exact congrArg (Option.map (·.id)) (Switch.get?_move_of_unheld (h.steady.exclusive _ hk) sm).1
    exact ⟨h.steady.step trivial, fun k hk => Moment.stands_step hswitch (h.resolves k hk),
      h.carried.frame rfl rfl rfl rfl hretains⟩

/-- whoever waits for an objective without labels has the plan that every request for it has -/
theorem registered_of_alone {base : List Reply} {initial : Store} (hsteady : Steady device m)
    (hbooked : Booked base initial m.accepted [] m.controller) {index : UInt32}
    (hplan : ((Planner.mk device index).build o).1 = .ok p) (hlabels : o.Unlabelled)
    (halone : ∀ r ∈ m.controller.tracker.registrants, r.objective = o) {k : Key} {r : Registrant}
    (hr : m.controller.tracker.Registered k r) : k = p.topKey ∧ r.objective = o ∧ r.record = p.record := by
  obtain ⟨q, hq, hkey, hrecord⟩ := hbooked.registered k r hr
  have ho := halone r (Tracker.mem_registrants_iff.2 ⟨k, hr⟩)
  obtain ⟨i, hi⟩ := hsteady.founded.planned _ hq
  rw [ho, Planner.build_of_unlabelled hlabels device i index, hplan] at hi
  cases hi
  exact ⟨hkey.symm, ho, hrecord.symm⟩

/-- the objective is registered where no other objective waits -/
theorem begin {base : List Reply} {initial : Store} {now : Nat} (hsteady : Steady device m) (hidle : m.Idle)
    (hbooked : Booked base initial m.accepted [] m.controller) (hpeopled : m.controller.tracker.Peopled)
    (ha : (Move.handle (.request now (.install ticket o p))).Admissible device m) (hlabels : o.Unlabelled)
    (halone : ∀ r ∈ m.controller.tracker.registrants, r.objective = o)
    (haside : m.controller.deferred.get? o.id = none) :
    Underway device ticket o p (m.begin (.request now (.install ticket o p))) := by
  obtain ⟨index, hplan⟩ := ha.1
  let r : Registrant := ⟨ticket, o, p.record, p.topId⟩
  let t := m.controller.tracker.registerObjective p.topKey r now
  have hfilled : t.Peopled := (Tracker.lasting_peopled fun _ => True).install _ ticket o p now trivial hpeopled
  obtain ⟨rs, hfound, hlist⟩ : ∃ rs, t.objectives.get? p.topKey = some rs ∧ r ∈ rs.list :=
    ⟨_, (Registry.get?_insert _ _ _ _).trans (if_pos rfl), List.mem_append_right _ List.mem_cons_self⟩
  have hqueue : (m.begin (.request now (.install ticket o p))).queue =
      (t.registerAll p.topKey p.elements).2.map .element ++ p.initial.map .create := by
    rw [Moment.begin, Controller.opening_install]
  have hcontroller : (m.begin (.request now (.install ticket o p))).controller =
      { m.controller with tracker := (t.registerAll p.topKey p.elements).1 } := by
    rw [Moment.begin, Controller.opening_install]
  have hobjectives : (t.registerAll p.topKey p.elements).1.objectives = t.objectives :=
    Tracker.objectives_registerAll t p.topKey p.elements
  refine ⟨hsteady.begin hidle ha, fun k hk => ?_, ?_⟩
  · rw [hqueue] at hk
    simp at hk
  · rw [hcontroller]
    refine ⟨haside, fun k ss hk => ?_, fun id hid => ?_, Or.inr ⟨fun ss hss => ?_, fun d hd => Or.inl ?_⟩⟩
    · rw [hobjectives] at hk
      have hall : ∀ s ∈ ss.list, k = p.topKey ∧ s.objective = o ∧ s.record = p.record := by
        intro s hs
        rcases Tracker.registered_registerObjective ⟨ss, hk, hs⟩ with hs | ⟨hkey, rfl⟩
        · exact registered_of_alone hsteady hbooked hplan hlabels halone hs
        · exact ⟨hkey, rfl, rfl⟩
      obtain ⟨s, hs⟩ := List.exists_mem_of_ne_nil _ (hfilled k ss hk)
      exact ⟨(hall s hs).1, fun s hs => (hall s hs).2⟩
    · exact absurd (hbooked.ticket_of_reply hid) ha.2
    · rw [hobjectives, hfound] at hss
      cases hss
      exact ⟨r, hlist, rfl⟩
    · exact Tracker.pending_of_complete (Planner.complete_of_build hplan) _ r now hd

/-- so it is in every run, where the request is accepted -/
theorem of_request {delay : Nat} {isAutomatic : Bool} {store : Store} {metrics : Metrics} {before : List Move}
    {now : Nat}
    (h : Allowed (fun m move => move.Admissible device m) (.start device delay (.fresh isAutomatic) store metrics)
      (before ++ [.handle (.request now (.install ticket o p))]))
    (hlabels : o.Unlabelled)
    (hidle : ((Moment.start device delay (.fresh isAutomatic) store metrics).run before).Idle)
    (halone : ∀ r ∈ ((Moment.start device delay (.fresh isAutomatic) store metrics).run
      before).controller.tracker.registrants, r.objective = o)
    (haside : ((Moment.start device delay (.fresh isAutomatic) store metrics).run
      before).controller.deferred.get? o.id = none) :
    let n := (Moment.start device delay (.fresh isAutomatic) store metrics).run
      (before ++ [.handle (.request now (.install ticket o p))])
    Underway device ticket o p n ∧ Booked [] store n.accepted [] n.controller ∧ n.Distinct := by
  obtain ⟨hbefore, hinstall, -⟩ := allowed_append.1 h
  let m := (Moment.start device delay (.fresh isAutomatic) store metrics).run before
  obtain ⟨hbooked, hdistinct⟩ := booked_run hbefore
  have hsteady : Steady device m := (steady_start device delay isAutomatic store metrics).run hbefore
  have hpeopled : m.controller.tracker.Peopled := by
    refine (Tracker.lasting_peopled fun _ => True).run (founded_start _ _ _ _ _ _) hbefore (fun _ _ => trivial) ?_
    intro k rs hk
    cases hk
  have hrun : (Moment.start device delay (.fresh isAutomatic) store metrics).run
      (before ++ [.handle (.request now (.install ticket o p))]) =
      m.step (.handle (.request now (.install ticket o p))) := Moment.run_append _ _ _
  have hstep : m.step (.handle (.request now (.install ticket o p))) = m.begin (.request now (.install ticket o p)) :=
    if_pos hidle
  rw [hrun]
  refine ⟨?_, hbooked.step _, hdistinct.step hinstall⟩
  rw [hstep]
  exact .begin hsteady hidle hbooked hpeopled hinstall hlabels halone haside

/-- **A run without requests**, where only groups that stand are reported added. -/
theorem run {base : List Reply} {initial : Store} (h : Underway device ticket o p m)
    (hbooked : Booked base initial m.accepted [] m.controller) (hdistinct : m.Distinct) (hfits : p.record.Fits)
    (hown : p.record.objective = o.id) {moves : List Move}
    (hmoves : Allowed (fun m move => move.request? = none ∧ move.Truthful m) m moves) :
    Underway device ticket o p (m.run moves) ∧
      Booked base initial (m.run moves).accepted [] (m.run moves).controller ∧ (m.run moves).Distinct := by
  refine hmoves.keeps (P := fun m => Underway device ticket o p m ∧
    Booked base initial m.accepted [] m.controller ∧ m.Distinct) ?_ ⟨h, hbooked, hdistinct⟩
  rintro m move ⟨hsilent, ht⟩ ⟨hu, hb, hd⟩
  exact ⟨hu.step hfits hown hsilent ht, hb.step move, hd.step ((Move.of_silent hsilent).2 device m)⟩

/-- an answer of success, with nothing pending, leaves every group of the plan settled -/
theorem settled {base : List Reply} {initial : Store} (h : Underway device ticket o p m)
    (hbooked : Booked base initial m.accepted [] m.controller) (hdistinct : m.Distinct)
    (hnone : m.controller.tracker.pendingKeys = []) {id : GroupId}
    (hid : ⟨ticket, .installed id⟩ ∈ m.controller.replies) : ∀ d ∈ p.descriptors, m.controller.Settled d.key := by
  have hnodup : (m.controller.replies.map (·.ticket)).Nodup :=
    (List.nodup_append.1 (hbooked.balance.nodup_iff.2 hdistinct)).1
  rcases h.carried.live with ⟨e, he⟩ | ⟨-, hkeys⟩
  · have hsame := List.inj_on_of_nodup_map hnodup hid he rfl
    cases hsame
  · intro d hd
    refine (hkeys d hd).resolve_left fun hpending => ?_
    rw [hnone] at hpending
    cases hpending

end Underway

/-! ## A plan of settled groups -/

/-- the work is about a group of the plan -/
def Work.Within (p : Plan) : Work → Prop
  | .create d => d ∈ p.descriptors
  | .element e => e ∈ p.elements
  | .resolve k => ∃ d ∈ p.descriptors, d.key = k

/-- the work asks for the group under a key, or resolves the key -/
def Work.Reaches (k : Key) (w : Work) : Prop := w.Makes k ∨ w = .resolve k

/-- what a plan creates is in the queue once its elements are registered, or waits -/
theorem Plan.reached_of_creates {p : Plan} (t : Tracker) {k : Key} (h : p.Creates k) :
    (∃ w ∈ (t.registerAll p.topKey p.elements).2.map Work.element ++ p.initial.map .create, w.Reaches k) ∨
      ∃ w ∈ (t.registerAll p.topKey p.elements).1.waiting, w.element.Creates k := by
  rcases h with ⟨d, hd, rfl⟩ | ⟨e, he, hk⟩
  · exact Or.inl ⟨.create d, List.mem_append_right _ (List.mem_map_of_mem hd), Or.inl rfl⟩
  · rcases (Tracker.mem_waiting_registerAll t p.topKey p.elements).2 e he with hr | ⟨w, hw, rfl, -⟩
    · exact Or.inl ⟨.element e, List.mem_append_left _ (List.mem_map_of_mem hr), Or.inl hk⟩
    · exact Or.inr ⟨w, hw, hk⟩

/-- how far a plan has come that was registered for `r` in the controller `c`, where all its groups are settled -/
structure Replaying (p : Plan) (r : Registrant) (c d : Controller) (ws : List Work) : Prop where
  device : d.device = c.device
  switch : d.switch = c.switch
  requested : d.requested = c.requested
  deferred : d.deferred = c.deferred
  consistent : d.tracker.Consistent
  waiting : ∀ w ∈ d.tracker.waiting, w.element ∈ p.elements
  work : ∀ w ∈ ws, w.Within p
  reached : ∀ k ∈ d.tracker.pendingKeys, (∃ w ∈ ws, w.Reaches k) ∨ ∃ w ∈ d.tracker.waiting, w.element.Creates k
  alone : ∀ k rs, d.tracker.objectives.get? k = some rs → k = p.topKey ∧ rs.list = [r]
  answer : (d.replies = c.replies ∧ d.store = c.store ∧ ∃ rs, d.tracker.objectives.get? p.topKey = some rs) ∨
    (d.replies = c.replies ++ [⟨r.ticket, .installed (((c.group? p.topKey).map (·.id)).getD r.topId)⟩] ∧
      d.store = c.store.put r.record ∧ d.tracker.objectives.get? p.topKey = none)

namespace Replaying

variable {device : DeviceId} {p : Plan} {r : Registrant} {c d : Controller} {ws : List Work}

theorem settled (h : Replaying p r c d ws) {k : Key} (hk : c.Settled k) : d.Settled k := by
  obtain ⟨hstands, hfree⟩ := hk
  rw [Controller.Stands] at hstands
  refine ⟨?_, h.requested ▸ hfree⟩
  rw [Controller.Stands, h.device, h.switch]
  exact hstands

/-- a group that is asked for is found there -/
theorem submit {w : Work} {e : Descriptor} (h : Replaying p r c d (w :: ws)) (he : e ∈ p.descriptors)
    (hsettled : c.Settled e.key) (hw : ∀ k, w.Reaches k → k = e.key) :
    Replaying p r c (d.submit e).1 (ws ++ (d.submit e).2) := by
  rw [Controller.submit_of_settled (h.settled hsettled)]
  refine { h with work := fun v hv => ?_, reached := fun k hk => ?_ }
  · rcases List.mem_append.1 hv with hv | hv
    · exact h.work v (List.mem_cons_of_mem w hv)
    · rw [List.mem_singleton.1 hv]
      exact ⟨e, he, rfl⟩
  · refine (h.reached k hk).imp_left ?_
    rintro ⟨v, hv, hvk⟩
    rcases List.mem_cons.1 hv with rfl | hv
    · exact ⟨.resolve e.key, List.mem_append_right ws (List.mem_singleton.2 rfl), Or.inr (by rw [hw k hvk])⟩
    · exact ⟨v, List.mem_append_left _ hv, hvk⟩

/-- a key that was resolved is no longer pending, and is not needed in the queue -/
theorem reached_tail {k : Key} (h : Replaying p r c d (.resolve k :: ws)) {t : Tracker} (vs : List Work)
    (hpending : ∀ j ∈ t.pendingKeys, j ≠ k ∧ j ∈ d.tracker.pendingKeys)
    (hwaiting : ∀ w ∈ d.tracker.waiting, ∀ j, w.element.Creates j →
      (∃ v ∈ ws ++ vs, v.Reaches j) ∨ ∃ v ∈ t.waiting, v.element.Creates j) :
    ∀ j ∈ t.pendingKeys, (∃ v ∈ ws ++ vs, v.Reaches j) ∨ ∃ w ∈ t.waiting, w.element.Creates j := by
  intro j hj
  obtain ⟨hjk, hj⟩ := hpending j hj
  rcases h.reached j hj with ⟨v, hv, hvj⟩ | ⟨w, hw, hc⟩
  · rcases List.mem_cons.1 hv with rfl | hv
    · rcases hvj with hmakes | he
      · exact hmakes.elim
      · cases he
        exact absurd rfl hjk
    · exact Or.inl ⟨v, List.mem_append_left vs hv, hvj⟩
  · exact hwaiting w hw j hc

theorem confirm_awaited {k : Key} {ids : List Nat} (h : Replaying p r c d (.resolve k :: ws)) (hp : p.Complete)
    (hwell : p.WellFormed device) (hg : d.tracker.groups.get? k = some ids) :
    Replaying p r c { d with tracker := d.tracker.advance k ids }
      (ws ++ (d.tracker.readyAfter ids).map .element) := by
  -- no element of the plan waits for the key of the objective
  have hfree : d.tracker.objectives.get? k = none := by
    rw [Option.eq_none_iff_forall_ne_some]
    intro rs hrs
    obtain ⟨rfl, -⟩ := h.alone k rs hrs
    obtain ⟨id, hid⟩ := List.exists_mem_of_ne_nil ids (h.consistent.awaited _ ids hg)
    obtain ⟨w, hw, -, hwk⟩ := h.consistent.listed p.topKey id (by rw [Tracker.awaiting, hg]; exact hid)
    exact hp.topKey_not_mem hwell (h.waiting w hw) hwk
  refine { h with
    consistent := h.consistent.advance hg
    waiting := fun v hv => ?_
    work := fun v hv => ?_
    reached := h.reached_tail _ (fun j hj => Tracker.of_pending_advance hfree hj) fun w hw j hc => ?_ }
  · obtain ⟨w, hw, rfl, -⟩ := Tracker.mem_waiting_advance hv
    rw [Tracker.element_countDown]
    exact h.waiting w hw
  · rcases List.mem_append.1 hv with hv | hv
    · exact h.work v (List.mem_cons_of_mem _ hv)
    · obtain ⟨e, he, rfl⟩ := List.mem_map.1 hv
      obtain ⟨w, hw, rfl, -⟩ := Tracker.waiting_of_ready h.consistent hg he
      exact h.waiting w hw
  · rcases Tracker.mem_waiting_or_ready k ids hw with he | ⟨v, hv, he, -⟩
    · exact Or.inl ⟨_, List.mem_append_right ws (List.mem_map_of_mem he), Or.inl hc⟩
    · exact Or.inr ⟨v, hv, he ▸ hc⟩

theorem confirm_registered {k : Key} {rs : Registrants} (h : Replaying p r c d (.resolve k :: ws))
    (hg : d.tracker.groups.get? k = none) (ho : d.tracker.objectives.get? k = some rs) :
    Replaying p r c ({ d with tracker := d.tracker.discharge k }.recorded k r) ws := by
  obtain ⟨rfl, -⟩ := h.alone k rs ho
  obtain ⟨hreplies, hstore, -⟩ := h.answer.resolve_right fun hno => by
    rw [hno.2.2] at ho
    cases ho
  have hgroup : d.group? p.topKey = c.group? p.topKey := by simp only [Controller.group?, h.device, h.switch]
  have hreached := h.reached_tail [] (fun j hj => Tracker.of_pending_discharge hg hj)
    fun w hw j hc => Or.inr ⟨w, hw, hc⟩
  rw [List.append_nil] at hreached
  refine { h with
    consistent := h.consistent.congr rfl rfl rfl
    work := fun v hv => h.work v (List.mem_cons_of_mem _ hv)
    reached := hreached
    alone := fun j rs' hj => h.alone j rs' (Registry.of_get?_erase hj).2
    answer := Or.inr ⟨?_, ?_, (Registry.get?_erase _ _ _).trans (if_pos rfl)⟩ }
  · rw [← hgroup, ← hreplies]
    rfl
  · rw [← hstore]
    rfl

theorem confirm {k : Key} (h : Replaying p r c d (.resolve k :: ws)) (hp : p.Complete) (hwell : p.WellFormed device)
    (hsettled : c.Settled k) (haside : c.deferred.get? r.objective.id = none) :
    Replaying p r c (d.confirm k).1 (ws ++ (d.confirm k).2) := by
  have hrelease : d.release k = d := Controller.release_of_settled (h.settled hsettled)
  cases hg : d.tracker.groups.get? k with
  | some ids =>
    rw [Controller.confirm_of_awaited hg, hrelease]
    exact h.confirm_awaited hp hwell hg
  | none =>
    cases ho : d.tracker.objectives.get? k with
    | some rs =>
      have hlist := (h.alone k rs ho).2
      have hnone : { d with tracker := d.tracker.discharge k }.deferred.get? r.objective.id = none :=
        h.deferred ▸ haside
      rw [Controller.confirm_of_registered hg ho, hlist, hrelease]
      simp only [Controller.completeAll, Controller.complete_of_none hnone, List.append_nil]
      exact h.confirm_registered hg ho
    | none =>
      have hpending : ∀ j ∈ d.tracker.pendingKeys, j ≠ k ∧ j ∈ d.tracker.pendingKeys := by
        intro j hj
        refine ⟨?_, hj⟩
        rintro rfl
        rcases Tracker.mem_pendingKeys.1 hj with ⟨js, hjs⟩ | ⟨rs, hrs⟩
        · rw [hg] at hjs
          cases hjs
        · rw [ho] at hrs
          cases hrs
      rw [Controller.confirm_of_unknown hg ho, hrelease]
      exact { h with
        work := fun v hv => h.work v (List.mem_cons_of_mem _ (by simpa using hv))
        reached := h.reached_tail _ hpending fun w hw j hc => Or.inr ⟨w, hw, hc⟩ }

/-- **One item of work.** -/
theorem process {w : Work} (h : Replaying p r c d (w :: ws)) (hp : p.Complete) (hwell : p.WellFormed device)
    (hsettled : ∀ e ∈ p.descriptors, c.Settled e.key) (haside : c.deferred.get? r.objective.id = none) :
    Replaying p r c (d.process w).1 (ws ++ (d.process w).2) := by
  have hw := h.work w List.mem_cons_self
  cases w with
  | create e =>
    refine h.submit hw (hsettled e hw) ?_
    rintro k (hmakes | he)
    · exact hmakes.symm
    · cases he
  | element e =>
    have he : e.descriptor ∈ p.descriptors := List.mem_append_right _ (List.mem_map_of_mem hw)
    simp only [Controller.process, Controller.act, hp.creates e hw, Bool.false_eq_true, if_false]
    refine h.submit he (hsettled _ he) ?_
    rintro k (hmakes | he)
    · exact hmakes.2.symm
    · cases he
  | resolve k =>
    obtain ⟨e, he, rfl⟩ := hw
    exact h.confirm hp hwell (hsettled e he) haside

/-- an empty queue leaves nothing pending: what is reached only by an element waits for a key of a lower layer -/
theorem pendingKeys_eq_nil (h : Replaying p r c d []) (hwell : p.WellFormed device) : d.tracker.pendingKeys = [] := by
  have hnone : ∀ n, ∀ k ∈ d.tracker.pendingKeys, k.level = n → False := by
    intro n
    induction n using Nat.strong_induction_on with
    | _ n ih =>
      rintro k hk rfl
      rcases h.reached k hk with ⟨w, hw, -⟩ | ⟨w, hw, hc⟩
      · cases hw
      · obtain ⟨j, hj, hpending⟩ := h.consistent.exists_pending hw
        have hlt := hwell.ranked _ (h.waiting w hw) j hj
        rw [hc.2] at hlt
        exact ih j.level hlt j hpending rfl
  exact List.eq_nil_iff_forall_not_mem.2 fun k hk => hnone k.level k hk rfl

/-- the plan is registered where nothing is pending -/
theorem opening (hwell : p.WellFormed device) (hrooted : p.Rooted) (hc : c.tracker.Consistent)
    (hnone : c.tracker.pendingKeys = []) (now : Nat) (ticket : Ticket) (o : Objective) :
    Replaying p ⟨ticket, o, p.record, p.topId⟩ c (c.opening (.request now (.install ticket o p))).1
      (c.opening (.request now (.install ticket o p))).2 := by
  let r : Registrant := ⟨ticket, o, p.record, p.topId⟩
  let t := c.tracker.registerObjective p.topKey r now
  obtain ⟨hwaiting, -, hempty⟩ := hc.eq_empty hnone
  have hobjectives : ∀ k, (t.registerAll p.topKey p.elements).1.objectives.get? k =
      if k = p.topKey then some ⟨c.tracker.nextGeneration, [r]⟩ else none := by
    intro k
    rw [Tracker.objectives_registerAll]
    exact Tracker.get?_registerObjective_of_empty hempty p.topKey r now k
  obtain ⟨hready, hplan⟩ := Tracker.mem_of_registerAll (t := t) hwaiting p.topKey p.elements
  have hconsistent : (t.registerAll p.topKey p.elements).1.Consistent := by
    have ht : t.Consistent := hc.congr rfl rfl rfl
    exact ht.registerAll p.topKey _ hwell.distinct
  rw [Controller.opening_install]
  refine ⟨rfl, rfl, rfl, rfl, hconsistent, hplan, fun w hw => ?_, fun k hk => ?_, fun k rs hk => ?_,
    Or.inl ⟨rfl, rfl, _, (hobjectives p.topKey).trans (if_pos rfl)⟩⟩
  · rcases List.mem_append.1 hw with hw | hw
    · obtain ⟨e, he, rfl⟩ := List.mem_map.1 hw
      exact hready e he
    · obtain ⟨e, he, rfl⟩ := List.mem_map.1 hw
      exact List.mem_append_left _ he
  · rcases hconsistent.of_pending hk with ⟨w, hw, hwk⟩ | ⟨rs, hrs⟩
    · exact p.reached_of_creates t (hwell.supplied _ (hplan w hw) k hwk)
    · rw [hobjectives] at hrs
      split_ifs at hrs with hkt
      rw [hkt]
      exact p.reached_of_creates t hrooted.root
  · have hk := (hobjectives k).symm.trans hk
    split_ifs at hk with hkt
    cases hk
    exact ⟨hkt, rfl⟩

/-- **The whole handler.** -/
theorem respond (hp : p.Complete) (hwell : p.WellFormed device) (hrooted : p.Rooted) (hc : c.tracker.Consistent)
    (hnone : c.tracker.pendingKeys = []) (hsettled : ∀ e ∈ p.descriptors, c.Settled e.key) {o : Objective}
    (haside : c.deferred.get? o.id = none) (now : Nat) (ticket : Ticket) :
    Replaying p ⟨ticket, o, p.record, p.topId⟩ c (c.respond (.request now (.install ticket o p))) [] := by
  obtain ⟨d, hd, hdrain⟩ := Controller.drain_keeps (P := Replaying p ⟨ticket, o, p.record, p.topId⟩ c)
    (fun d w ws hd => hd.process hp hwell hsettled haside) (opening hwell hrooted hc hnone now ticket o)
  have hrespond : c.respond (.request now (.install ticket o p)) = d.updateGauges := hdrain
  rw [hrespond]
  exact { hd with }

/-- in the end the objective is answered and recorded, and nothing is left of the registration -/
theorem finished (h : Replaying p r c d []) (hwell : p.WellFormed device) (hc : c.tracker.Consistent)
    (hnone : c.tracker.pendingKeys = []) :
    d.replies = c.replies ++ [⟨r.ticket, .installed (((c.group? p.topKey).map (·.id)).getD r.topId)⟩] ∧
      d.store = c.store.put r.record ∧ d.tracker.waiting = c.tracker.waiting ∧ d.tracker.groups = c.tracker.groups ∧
      d.tracker.objectives = c.tracker.objectives := by
  obtain ⟨hwaiting, hgroups, hobjectives⟩ := h.consistent.eq_empty (h.pendingKeys_eq_nil hwell)
  obtain ⟨hwaiting', hgroups', hobjectives'⟩ := hc.eq_empty hnone
  obtain ⟨hreplies, hstore, -⟩ := h.answer.resolve_left fun ⟨_, _, rs, hrs⟩ => by
    rw [hobjectives] at hrs
    cases hrs
  exact ⟨hreplies, hstore, hwaiting.trans hwaiting'.symm, hgroups.trans hgroups'.symm,
    hobjectives.trans hobjectives'.symm⟩

end Replaying

/-! ## Resubmission -/

/-- **Resubmission changes nothing.** An objective of which no bucket needs a VPN group is submitted where no other
objective waits and no bucket of it is aside. There is no request since, and only groups that stand are reported added.
Once it is answered with success and nothing is pending, its plan is made anew as it was, whatever the next index; and
the handler of the new request answers with the same id, asks the switch for nothing, and leaves the records of the
store and all that waits as they are. -/
theorem resubmission_changes_nothing {device : DeviceId} {delay : Nat} {isAutomatic : Bool} {store : Store}
    {metrics : Metrics} {before since : List Move} {now : Nat} {ticket : Ticket} {o : Objective} {p : Plan}
    {id : GroupId}
    (h : Allowed (fun m move => move.Admissible device m) (.start device delay (.fresh isAutomatic) store metrics)
      (before ++ [.handle (.request now (.install ticket o p))]))
    (hlabels : o.Unlabelled)
    (hidle : ((Moment.start device delay (.fresh isAutomatic) store metrics).run before).Idle)
    (halone : ∀ r ∈ ((Moment.start device delay (.fresh isAutomatic) store metrics).run
      before).controller.tracker.registrants, r.objective = o)
    (haside : ((Moment.start device delay (.fresh isAutomatic) store metrics).run
      before).controller.deferred.get? o.id = none)
    (hsince : Allowed (fun m move => move.request? = none ∧ move.Truthful m)
      ((Moment.start device delay (.fresh isAutomatic) store metrics).run
        (before ++ [.handle (.request now (.install ticket o p))])) since) :
    let c := (((Moment.start device delay (.fresh isAutomatic) store metrics).run
      (before ++ [.handle (.request now (.install ticket o p))])).run since).controller
    ⟨ticket, .installed id⟩ ∈ c.replies → c.tracker.pendingKeys = [] →
      ∀ index later again, ((Planner.mk device index).build o).1 = .ok p ∧
        let d := c.respond (.request later (.install again o p))
        d.replies = c.replies ++ [⟨again, .installed id⟩] ∧ d.switch = c.switch ∧ d.requested = c.requested ∧
          (c.store.get o.id = .ok (some p.record) ∧ ∀ n, d.store.get n = c.store.get n) ∧ d.deferred = c.deferred ∧
          d.tracker.waiting = c.tracker.waiting ∧ d.tracker.groups = c.tracker.groups ∧
          d.tracker.objectives = c.tracker.objectives := by
  obtain ⟨i, hplan⟩ := (allowed_append.1 h).2.1.1
  obtain ⟨hwell, hrooted⟩ := Planner.sound_of_build hplan
  obtain ⟨hown, hfits⟩ := Planner.record_of_build hplan
  obtain ⟨hunder, hbooked, hdistinct⟩ := Underway.of_request h hlabels hidle halone haside
  obtain ⟨hq, hbookedq, hdistinctq⟩ := hunder.run hbooked hdistinct hfits hown hsince
  intro c hid hnone index later again
  obtain ⟨hgroup, hget⟩ := hq.carried.answered id hid
  have hc : c.tracker.Consistent := hq.steady.founded.consistent
  have hd := Replaying.respond (Planner.complete_of_build hplan) hwell hrooted hc hnone
    (hq.settled hbookedq hdistinctq hnone hid) hq.carried.aside later again
  obtain ⟨hreplies, hstore, hrest⟩ := hd.finished hwell hc hnone
  refine ⟨(Planner.build_of_unlabelled hlabels device index i).trans hplan, ?_, hd.switch, hd.requested,
    ⟨hget, fun n => ?_⟩, hd.deferred, hrest⟩
  · rw [hreplies, hgroup]
    rfl
  · rw [hstore, Store.get_put hfits]
    split_ifs with hn
    · rw [hn, hown]
      exact hget.symm
    · rfl

/-- the hashed sample is installed and submitted once more -/
theorem sample_is_answered_again :
    let c := (Sample.start.run Sample.hashedInstalled).controller
    let d := c.respond (.request 0 (.install 1 (Sample.hashed ⟨10⟩) (Sample.hashedPlan ⟨10⟩)))
    c.replies = [⟨0, .installed (GroupId.l3Ecmp 4)⟩] ∧
      d.replies = [⟨0, .installed (GroupId.l3Ecmp 4)⟩, ⟨1, .installed (GroupId.l3Ecmp 4)⟩] ∧ d.switch = c.switch ∧
      d.store.get 4 = .ok (some (Sample.hashedPlan ⟨10⟩).record) ∧ d.tracker.objectives = .empty := by
  have h : Allowed (fun m move => move.Admissible Sample.device m) Sample.start
      ([] ++ [.handle (.request 0 (.install 0 (Sample.hashed ⟨10⟩) (Sample.hashedPlan ⟨10⟩)))]) :=
    ⟨⟨⟨0, rfl⟩, List.not_mem_nil⟩, trivial⟩
  have hsince : Allowed (fun m move => move.request? = none ∧ move.Truthful m)
      (Sample.start.run ([] ++ [.handle (.request 0 (.install 0 (Sample.hashed ⟨10⟩) (Sample.hashedPlan ⟨10⟩)))]))
      Sample.hashedConfirmed := by
    decide +kernel
  have hreplies : (Sample.start.run Sample.hashedInstalled).controller.replies =
      [⟨0, .installed (GroupId.l3Ecmp 4)⟩] := by
    decide +kernel
  have hpending : (Sample.start.run Sample.hashedInstalled).controller.tracker.pendingKeys = [] := by decide +kernel
  have hobjectives : (Sample.start.run Sample.hashedInstalled).controller.tracker.objectives = .empty := by
    decide +kernel
  have hok : ⟨0, .installed (GroupId.l3Ecmp 4)⟩ ∈ (Sample.start.run Sample.hashedInstalled).controller.replies := by
    rw [hreplies]
    exact List.mem_cons_self
  have hlabels : (Sample.hashed ⟨10⟩).Unlabelled := fun _ => by decide
  have hsplit : Sample.hashedInstalled =
      [] ++ [.handle (.request 0 (.install 0 (Sample.hashed ⟨10⟩) (Sample.hashedPlan ⟨10⟩)))] ++
        Sample.hashedConfirmed := rfl
  rw [hsplit, Moment.run_append] at hreplies hpending hobjectives hok ⊢
  unfold Sample.start at h hsince hreplies hpending hobjectives hok ⊢
  obtain ⟨-, hagain, hswitch, -, ⟨hget, hstore⟩, -, -, -, ho⟩ :=
    resubmission_changes_nothing h hlabels ⟨rfl, rfl⟩ (fun r hr => by cases hr) rfl hsince hok hpending 0 0 1
  refine ⟨hreplies, ?_, hswitch, (hstore 4).trans hget, ho.trans hobjectives⟩
  rw [hreplies] at hagain
  exact hagain

/-! ## Resubmission that is noticed -/

/-- all requests so far were about one objective, and nothing is pending or undelivered -/
def Moment.Quiet (m : Moment) (o : Objective) : Prop :=
  m.Idle ∧ (∀ r ∈ m.accepted, r.objective.id = o.id) ∧ m.controller.tracker.pendingKeys = [] ∧
    m.controller.switch.events = []

instance (m : Moment) (o : Objective) : Decidable (m.Quiet o) := inferInstanceAs (Decidable (_ ∧ _))

namespace Sample

/-- some groups are confirmed one after the other, and what waited for them moves on -/
def confirmedInTurn (ks : List Key) : List Move := ks.flatMap fun k => confirmed k ++ [.work, .work]

/-- the events that were handled are gone -/
def delivered : Move := .switch (.scramble [])

/-- one bucket that pushes a label -/
def labelled : Objective :=
  ⟨4, .hashed, [⟨[.pushMpls, .setMplsLabel ⟨100⟩, .setEthDst dst, .setVlanId ⟨10⟩, .output ⟨7⟩]⟩], ⟨"sample"⟩, none⟩

def tunnel : Descriptor :=
  objective.descriptor device .indirect [⟨⟨[.setEthDst dst, .setVlanId ⟨10⟩, .group (inner ⟨10⟩).id]⟩⟩]
    (Key.mplsInterface device ⟨7⟩) (GroupId.mplsInterface ⟨7⟩)

def vpn (index : UInt32) : Descriptor :=
  objective.descriptor device .indirect [⟨vpnTreatment ⟨100⟩ tunnel.id⟩] (Key.mplsL3Vpn 4 index)
    (GroupId.mplsL3Vpn index)

def labelledChain (index : UInt32) : BucketChain :=
  ⟨inner ⟨10⟩, [.after tunnel [(inner ⟨10⟩).key] false, .after (vpn index) [tunnel.key] false], vpn index,
    [(vpn index).key, tunnel.key, (inner ⟨10⟩).key]⟩

def labelledPlan (index : UInt32) : Plan := labelled.planEcmp device [labelledChain index] false

def labelledInstalled : List Move :=
  [.handle (.request 0 (.install 0 labelled (labelledPlan 1))), .work] ++
    confirmedInTurn [(inner ⟨10⟩).key, tunnel.key, (vpn 1).key, Key.l3Ecmp 4] ++ [delivered]

/-- a bucket is added to the installed objective, and its interface group confirmed; its L3 unicast group stands -/
def widened : List Move :=
  [.handle (.request 0 (.addBucket (addition 1 ⟨20⟩))), .work] ++ confirmed (inner ⟨20⟩).key ++
    [.work, .work, .work, .work, delivered]

/-- the group is found by a sweep; the objective is removed and installed again before its events are delivered -/
def belatedlyReported : List Move :=
  [.handle (.request 0 (.install 0 plain plainPlan)), .work, .switch (.confirm plainPlan.topKey), .handle .sweep, .work,
    .handle (.request 0 (.remove 1 plain)), .handle (.request 0 (.install 2 plain plainPlan)), .work,
    .handle (.event ⟨.added, plainPlan.topKey⟩), .work, .handle (.event ⟨.removed, plainPlan.topKey⟩), delivered]

end Sample

/-- **Resubmission that is noticed.** Only one objective was ever requested, its submission was answered with success,
and nothing is pending or undelivered. If it pushes a label, its new plan has a VPN group of its own: this is asked for,
and there is no answer. If a bucket was added since, the record loses the chain of that bucket. If it was a late report
of an earlier group that answered the submission, the group is asked for again. -/
theorem resubmission_is_noticed :
    (let m := Sample.start.run Sample.labelledInstalled
      let d := m.controller.respond (.request 0 (.install 1 Sample.labelled (Sample.labelledPlan 2)))
      Allowed (fun m move => move.Admissible Sample.device m) Sample.start Sample.labelledInstalled ∧
        m.Quiet Sample.labelled ∧ m.controller.replies = [⟨0, .installed (GroupId.l3Ecmp 4)⟩] ∧
        (Planner.mk Sample.device 0).build Sample.labelled = (.ok (Sample.labelledPlan 1), ⟨Sample.device, 1⟩) ∧
        ((Planner.mk Sample.device 1).build Sample.labelled).1 = .ok (Sample.labelledPlan 2) ∧
        d.replies = m.controller.replies ∧ d.switch.sent = m.controller.switch.sent ++ [(Sample.vpn 2).key]) ∧
    (let m := Sample.start.run (Sample.hashedInstalled ++ Sample.widened)
      let d := m.controller.respond (.request 0 (.install 2 (Sample.hashed ⟨10⟩) (Sample.hashedPlan ⟨10⟩)))
      Allowed (fun m move => move.Admissible Sample.device m) Sample.start (Sample.hashedInstalled ++ Sample.widened) ∧
        m.Quiet (Sample.hashed ⟨10⟩) ∧
        m.controller.replies = [⟨0, .installed (GroupId.l3Ecmp 4)⟩, ⟨1, .installed (GroupId.l3Ecmp 4)⟩] ∧
        d.store.get 4 ≠ m.controller.store.get 4) ∧
    (let m := Sample.start.run Sample.belatedlyReported
      let d := m.controller.respond (.request 0 (.install 3 Sample.plain Sample.plainPlan))
      Allowed (fun m move => move.Admissible Sample.device m) Sample.start Sample.belatedlyReported ∧
        m.Quiet Sample.plain ∧ m.controller.replies.getLast? = some ⟨2, .installed Sample.plainPlan.topId⟩ ∧
        d.replies = m.controller.replies ∧
        d.switch.sent = m.controller.switch.sent ++ [Sample.plainPlan.topKey]) := by
  have hlabelled : (Request.install 0 Sample.labelled (Sample.labelledPlan 1)).Planned Sample.device := ⟨0, rfl⟩
  have hadd : (Request.addBucket (Sample.addition 1 ⟨20⟩)).Planned Sample.device := ⟨0, rfl⟩
  have hplain : ∀ ticket, (Request.install ticket Sample.plain Sample.plainPlan).Planned Sample.device := fun _ =>
    ⟨0, rfl⟩
  refine ⟨⟨?_, by decide +kernel, by decide +kernel, by decide +kernel, by decide +kernel, by decide +kernel,
    by decide +kernel⟩, ⟨?_, by decide +kernel, by decide +kernel, by decide +kernel⟩, ⟨?_, by decide +kernel,
    by decide +kernel, by decide +kernel, by decide +kernel⟩⟩
  · exact ⟨⟨hlabelled, List.not_mem_nil⟩, allowed_admissible (by decide +kernel) _⟩
  · exact allowed_append.2 ⟨Sample.admissible_hashedInstalled, ⟨hadd, by decide +kernel⟩,
      allowed_admissible (by decide +kernel) _⟩
  · exact ⟨⟨hplain 0, List.not_mem_nil⟩, trivial, trivial, trivial, trivial, ⟨trivial, by decide +kernel⟩,
      ⟨hplain 2, by decide +kernel⟩, allowed_admissible (by decide +kernel) _⟩

end FlowGroups
