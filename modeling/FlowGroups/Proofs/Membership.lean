/-
The buckets of an ECMP group and the record of its objective. A hashed objective is installed over an empty switch and an
empty store, and from then on buckets are added and removed, each time when nothing is pending. Meanwhile groups are
confirmed, rejected or installed without a word, events get lost or come again, sweeps run and times run out.

- `buckets_match_record`: whenever nothing is pending, the buckets of the ECMP group point to the groups that stand second
  in the chains of the record, in the same order; provided that each bucket that was removed was the only one of its kind.
- `equal_buckets_drift`: of two equal buckets the switch removes both, and the record one.
-/
import FlowGroups.Proofs.Buckets
import FlowGroups.Proofs.Progress

namespace FlowGroups

/-! ## Runs of updates -/

/-- does the request add buckets to an objective, or remove one? -/
def Request.Updates (n : UInt32) : Request → Prop
  | .addBucket a => a.objective.id = n
  | .removeBucket _ o _ => o.id = n
  | .install .. | .remove .. => False

/-- a bucket to be removed is the only one that points to its group -/
def Request.Sole (c : Controller) : Request → Prop
  | .removeBucket _ o port => ∀ record i id, c.store.get o.id = .ok (some record) →
      c.findChain? port record.chains = some (i, id) → (c.secondIds record).count (some id) = 1
  | .install .. | .addBucket _ | .remove .. => True

/-- all requests update one objective, and each comes when nothing is pending -/
def Move.Updates (n : UInt32) (m : Moment) : Move → Prop
  | .handle (.request _ r) => r.Updates n ∧ m.controller.tracker.pendingKeys = []
  | .work | .handle _ | .switch _ => True

/-- where a bucket is removed, it is the only one that points to its group -/
def Move.Sole (m : Moment) : Move → Prop
  | .handle (.request _ r) => r.Sole m.controller
  | .work | .handle _ | .switch _ => True

/-- a move of a run in which one objective is updated -/
structure Move.Tends (device : DeviceId) (n : UInt32) (m : Moment) (move : Move) : Prop where
  admissible : move.Admissible device m
  truthful : move.Truthful m
  updates : move.Updates n m
  sole : move.Sole m

theorem Move.Updates.peaceful {n : UInt32} {m : Moment} {move : Move} (h : move.Updates n m) : ¬move.removes := by
  rintro hr
  cases move with
  | handle s =>
    cases s with
    | request now r =>
      cases r with
      | remove ticket o => exact h.1
      | _ => cases hr
    | _ => cases hr
  | _ => cases hr

/-! ## Groups that are known -/

namespace Switch.Traced

variable {D : Key → Prop} {device : DeviceId} {acc acc' : List Request} {c : Controller} {w : Work} {ws : List Work}

theorem mono (h : c.switch.Traced device acc) (hsub : ∀ r ∈ acc, r ∈ acc') : c.switch.Traced device acc' :=
  All.mono h fun _ _ ⟨hplace, e, he, hsame⟩ => ⟨hplace, e, he.mono hsub, hsame⟩

theorem process (h : c.switch.Traced device acc) (hf : Founded D device acc c (w :: ws)) :
    (c.process w).1.switch.Traced device acc := by
  have hwork := hf.work w List.mem_cons_self
  have hdone := c.performs w
  generalize c.process w = x at hdone ⊢
  cases hdone with
  | awaited | found => exact h
  | @ask _ d hw =>
    obtain ⟨r, hr, p, hp, hd⟩ := hwork.of_asks hw
    have hhome : d.device = device := ((hf.planned r hr).wellFormed hp).home d hd
    exact All.addGroup h ⟨by rw [hhome], d, ⟨r, hr, p, hp, hd⟩, rfl, rfl⟩
  | addBuckets => exact All.editBuckets (s := c.switch.log _) h fun _ hd => hd
  | confirm k =>
    rw [(c.confirm_spares k).1]
    exact h

theorem opening {s : Stimulus} (h : c.switch.Traced device acc) (hr : ¬(Move.handle s).removes) :
    (c.opening s).1.switch.Traced device acc := by
  have hopens := c.opens s
  generalize c.opening s = x at hopens ⊢
  cases hopens with
  | detach => exact All.editBuckets (s := c.switch.log _) h fun _ hd => hd
  | remove => exact absurd rfl hr
  | expire now =>
    rw [(c.expire_spares now).1.2.1]
    exact h
  | install | extend | defer | refuseBucket | refuseDetach | added | removed | error | sweep => exact h

end Switch.Traced

/-! ## Buckets that are put aside -/

namespace Controller

variable {c : Controller}

/-- where no objective waits, a bucket is added or refused -/
theorem opening_addBucket_of_empty (h : c.tracker.objectives = .empty) (now : Nat) (a : Addition) :
    (∃ record, c.store.get a.objective.id = .ok (some record) ∧
      c.opening (.request now (.addBucket a)) = c.extend record a) ∨
      ∃ e stop, c.opening (.request now (.addBucket a)) = (c.refused a.ticket e stop, []) := by
  by_cases hs : ∃ record, c.store.get a.objective.id = .ok (some record)
  · obtain ⟨record, hs⟩ := hs
    exact Or.inl ⟨record, hs, by simp only [opening, hs]⟩
  · rw [not_exists] at hs
    refine Or.inr ?_
    rw [opening_addBucket hs, addBucket]
    split
    · exact ⟨_, _, rfl⟩
    · rename_i record hrecord
      exact absurd hrecord (hs record)
    · rw [Tracker.hasObjective, h]
      exact ⟨_, _, rfl⟩

theorem deferred_process (h : ∀ n, c.deferred.get? n = none) (w : Work) (n : UInt32) :
    (c.process w).1.deferred.get? n = none := by
  have hdone := c.performs w
  generalize c.process w = x at hdone ⊢
  cases hdone with
  | awaited | found | ask | addBuckets => exact h n
  | confirm k => exact (c.confirm_spares k).2 n (h n)

theorem deferred_opening (h : ∀ n, c.deferred.get? n = none) (hempty : c.tracker.objectives = .empty) {n : UInt32}
    {now : Nat} {r : Request} (hr : r.Updates n) (j : UInt32) :
    (c.opening (.request now r)).1.deferred.get? j = none := by
  cases r with
  | addBucket a =>
    rcases opening_addBucket_of_empty hempty now a with ⟨record, -, he⟩ | ⟨e, stop, he⟩
    · rw [he, extend_eq]
      exact h j
    · rw [he]
      exact h j
  | removeBucket ticket o port =>
    simp only [opening, handle]
    rcases c.removeBucket_cases ticket o port with ⟨e, stop, he⟩ | ⟨existing, i, k, bs, id, -, he⟩
    · rw [he]
      exact h j
    · rw [he]
      exact h j
  | install => exact hr.elim
  | remove => exact hr.elim

end Controller

/-! ## One objective and its updates -/

/-- the objective is on its way, or recorded -/
def Staged (device : DeviceId) (n : UInt32) (acc : List Request) (p : Plan) (top : Element) (c : Controller)
    (ws : List Work) : Prop :=
  Unbuilt device n p top c ws ∨ ∃ record chains, Built device n acc c ws record chains

theorem Staged.frame {device : DeviceId} {n : UInt32} {acc acc' : List Request} {p : Plan} {top : Element}
    {c d : Controller} {ws vs : List Work} (h : Staged device n acc p top c ws) (hf : Frame device (Key.l3Ecmp n) c d)
    (hc : (d.concerning vs (Key.l3Ecmp n)).Perm (c.concerning ws (Key.l3Ecmp n))) (hsub : ∀ r ∈ acc, r ∈ acc') :
    Staged device n acc' p top d vs := by
  rcases h with hu | ⟨record, chains, hb⟩
  · exact Or.inl (hu.frame hf hc.subperm)
  · exact Or.inr ⟨record, chains, hb.frame hf hc hsub⟩

structure Tended (device : DeviceId) (ticket : Ticket) (o : Objective) (p : Plan) (top : Element) (m : Moment) :
    Prop where
  founded : Founded m.controller.Stands device m.accepted m.controller m.queue
  installs : .install ticket o p ∈ m.accepted
  updates : ∀ r ∈ m.accepted, r = .install ticket o p ∨ r.Updates o.id
  deferred : ∀ n, m.controller.deferred.get? n = none
  traced : m.controller.switch.Traced device m.accepted
  stage : Staged device o.id m.accepted p top m.controller m.queue

namespace Tended

variable {device : DeviceId} {ticket : Ticket} {o : Objective} {p : Plan} {top : Element} {chains : List BucketChain}
  {m : Moment}

/-- only elements of the ECMP group add buckets -/
theorem creates (h : Tended device ticket o p top m) (hp : p.Spreads o.id false top chains) {e : Element}
    (he : Asked m.accepted e) (hk : e.descriptor.key ≠ Key.l3Ecmp o.id) : e.addBucket = false := by
  obtain ⟨r, hr, q, hq, he⟩ := he
  rcases h.updates r hr with rfl | hupdates
  · cases hq
    exact hp.creates he hk
  · cases r with
    | addBucket a =>
      cases hq
      obtain ⟨index, hbuild⟩ := h.founded.planned _ hr
      obtain ⟨last, more, hspreads⟩ := Planner.spreads_buildAddBucket hbuild
      have hid : a.objective.id = o.id := hupdates
      exact (hid ▸ hspreads).creates he hk
    | install => exact hupdates.elim
    | removeBucket => cases hq
    | remove => cases hq

/-! ## Work -/

/-- a group other than the ECMP group is asked for -/
theorem stage_submit (h : Tended device ticket o p top m) {w : Work} {ws : List Work} (hq : m.queue = w :: ws)
    {d : Descriptor} (hw : m.controller.process w = m.controller.submit d) (hd : d.key ≠ Key.l3Ecmp o.id)
    (hnone : (w.element?.toList.filter fun e => e.descriptor.key = Key.l3Ecmp o.id) = []) :
    Staged device o.id m.accepted p top (m.controller.process w).1 (ws ++ (m.controller.process w).2) := by
  have hperm : (m.controller.concerning (w :: ws) (Key.l3Ecmp o.id)).Perm _ :=
    Controller.concerning_process h.deferred w
  rw [hnone, List.nil_append, ← hq] at hperm
  refine h.stage.frame ?_ hperm.symm fun _ hr => hr
  rw [hw]
  exact .submit hd

theorem stage_element (h : Tended device ticket o p top m) (hp : p.Spreads o.id false top chains) {e : Element}
    {ws : List Work} (hq : m.queue = .element e :: ws) :
    Staged device o.id m.accepted p top (m.controller.act e).1 (ws ++ (m.controller.act e).2) := by
  have hstage := h.stage
  rw [hq] at hstage
  obtain ⟨hasked, hwait⟩ := h.founded.work (.element e) (hq ▸ List.mem_cons_self)
  have hhome : e.descriptor.device = device := by
    obtain ⟨r, hr, q, hrq, he⟩ := hasked
    exact ((h.founded.planned r hr).wellFormed hrq).home _ (List.mem_append_right _ (List.mem_map_of_mem he))
  by_cases hk : e.descriptor.key = Key.l3Ecmp o.id
  · have hmem : e ∈ m.controller.concerning (.element e :: ws) (Key.l3Ecmp o.id) :=
      Controller.concerning_element hk ▸ List.mem_cons_self
    rcases hstage with hu | ⟨record, cs, hb⟩
    · obtain rfl := hu.creates e hmem
      simp only [Controller.act, hp.adds, Bool.false_eq_true, if_false]
      exact Or.inl (hu.created h.founded.home hhome hk hwait)
    · simp only [Controller.act, hb.adds e hmem, if_true, List.append_nil]
      exact Or.inr ⟨record, cs, hb.acted hhome hk hwait⟩
  · have hact : m.controller.act e = m.controller.submit e.descriptor := by
      simp only [Controller.act, h.creates hp hasked hk, Bool.false_eq_true, if_false]
    exact h.stage_submit hq hact hk (by simp [Work.element?, hk])

theorem stage_resolve (h : Tended device ticket o p top m) (hp : p.Spreads o.id false top chains) {k : Key}
    {ws : List Work} (hq : m.queue = .resolve k :: ws) :
    Staged device o.id m.accepted p top (m.controller.confirm k).1 (ws ++ (m.controller.confirm k).2) := by
  have hperm : ((m.controller.confirm k).1.concerning (ws ++ (m.controller.confirm k).2) (Key.l3Ecmp o.id)).Perm
      (m.controller.concerning m.queue (Key.l3Ecmp o.id)) := by
    rw [hq]
    exact (Controller.concerning_process h.deferred (.resolve k)).symm
  have hk : m.controller.Stands k := h.founded.work (.resolve k) (hq ▸ List.mem_cons_self)
  have hreleased : ∀ j ∈ (m.controller.release k).requested, j ∈ m.controller.requested := fun j hj =>
    List.mem_of_mem_filter hj
  rcases m.controller.confirm_cases k with ⟨ids, -, he⟩ | ⟨rs, -, ho, he⟩ | he
  · refine h.stage.frame ?_ hperm fun _ hr => hr
    rw [he]
    exact .of_switch rfl rfl rfl hreleased (fun _ hreply => Or.inl hreply) fun _ _ hj => hj
  · rcases h.stage with hu | ⟨record, cs, hb⟩
    · have hrecord := (h.founded.planned _ h.installs).record rfl
      rcases hu.completed h.founded.home hp h.installs hrecord hk ho h.deferred he hperm with hu | hb
      · exact Or.inl hu
      · exact Or.inr ⟨_, _, hb⟩
    · rw [hb.unregistered k] at ho
      cases ho
  · refine h.stage.frame ?_ hperm fun _ hr => hr
    rw [he]
    exact .of_switch rfl rfl rfl hreleased (fun _ hreply => Or.inl hreply) fun _ _ hj => hj

theorem stage_work (h : Tended device ticket o p top m) (hp : p.Spreads o.id false top chains) :
    Staged device o.id m.work.accepted p top m.work.controller m.work.queue := by
  cases hq : m.queue with
  | nil =>
    simp only [Moment.work, hq]
    have hstage := h.stage
    rw [hq] at hstage
    refine hstage.frame ?_ (List.Perm.refl _) fun _ hr => hr
    exact .of_switch rfl rfl rfl (fun _ hj => hj) (fun _ hreply => Or.inl hreply) fun _ _ hj => hj
  | cons w ws =>
    simp only [Moment.work, hq]
    cases w with
    | create d =>
      obtain ⟨r, hr, q, hrq, hd⟩ := h.founded.work (.create d) (hq ▸ List.mem_cons_self)
      have hlow := ((h.founded.planned r hr).wellFormed hrq).bottom d hd
      have hd : d.key ≠ Key.l3Ecmp o.id := by
        intro hk
        rw [hk, Key.level_l3Ecmp] at hlow
        cases hlow
      exact h.stage_submit hq rfl hd rfl
    | element e => exact h.stage_element hp hq
    | resolve k => exact h.stage_resolve hp hq

/-! ## Requests, and the time -/

/-- where nothing is pending, no element waits -/
theorem elements_eq_nil (h : Tended device ticket o p top m) (hnone : m.controller.tracker.pendingKeys = []) :
    m.controller.tracker.elements = [] := by
  rw [Tracker.elements, (h.founded.consistent.eq_empty hnone).1]
  rfl

theorem stage_addBucket (h : Tended device ticket o p top m) (hq : m.queue = [])
    (hnone : m.controller.tracker.pendingKeys = []) {now : Nat} {a : Addition} (hid : a.objective.id = o.id)
    (ha : (Request.addBucket a).Planned device) :
    Staged device o.id (m.accepted ++ [.addBucket a]) p top (m.controller.opening (.request now (.addBucket a))).1
      (m.controller.opening (.request now (.addBucket a))).2 := by
  have hsub : ∀ r ∈ m.accepted, r ∈ m.accepted ++ [.addBucket a] := fun r hr => List.mem_append_left _ hr
  have hstage := h.stage
  rw [hq] at hstage
  have hempty := (h.founded.consistent.eq_empty hnone).2.2
  rcases Controller.opening_addBucket_of_empty hempty now a with ⟨record, hs, he⟩ | ⟨e, stop, he⟩
  · rw [he]
    rw [hid] at hs
    rcases hstage with hu | ⟨existing, cs, hb⟩
    · cases hu.store.symm.trans hs
    · cases hb.store.symm.trans hs
      have hfits := (ha.record rfl).2
      obtain ⟨index, hbuild⟩ := ha
      obtain ⟨last, more, hspreads⟩ := Planner.spreads_buildAddBucket hbuild
      exact Or.inr ⟨_, _, hb.extended (h.elements_eq_nil hnone) (hid ▸ hspreads) hfits List.mem_concat_self hsub⟩
  · rw [he]
    exact hstage.frame (.refused _ _ _ _) (List.Perm.refl _) hsub

theorem stage_removeBucket (h : Tended device ticket o p top m) (hq : m.queue = [])
    (hnone : m.controller.tracker.pendingKeys = []) (hambiguous : Unambiguous m.accepted) {t : Ticket} {u : Objective}
    {port : PortNumber} (hid : u.id = o.id) (hsole : (Request.removeBucket t u port).Sole m.controller) :
    Staged device o.id (m.accepted ++ [.removeBucket t u port]) p top (m.controller.removeBucket t u port) [] := by
  have hsub : ∀ r ∈ m.accepted, r ∈ m.accepted ++ [.removeBucket t u port] := fun r hr => List.mem_append_left _ hr
  have hstage := h.stage
  rw [hq] at hstage
  have hrefused : ∀ e stop, Staged device o.id (m.accepted ++ [.removeBucket t u port]) p top
      (m.controller.refused t e stop) [] :=
    fun _ _ => hstage.frame (.refused _ _ _ _) (List.Perm.refl _) hsub
  rcases hstage with hu | ⟨record, cs, hb⟩
  · have hs : m.controller.store.get u.id = .ok none := hid ▸ hu.store
    have he : m.controller.removeBucket t u port = m.controller.refused t .missing m.controller.isStopped := by
      simp only [Controller.removeBucket, hs]
      rfl
    rw [he]
    exact hrefused _ _
  · have hs : m.controller.store.get u.id = .ok (some record) := hid ▸ hb.store
    cases hfound : m.controller.findChain? port record.chains with
    | none =>
      have he : m.controller.removeBucket t u port = m.controller.refused t .missing m.controller.isStopped := by
        simp only [Controller.removeBucket, hs, hfound]
        rfl
      rw [he]
      exact hrefused _ _
    | some found =>
      obtain ⟨i, id⟩ := found
      have hquiet : m.controller.concerning [] (Key.l3Ecmp o.id) = [] := by
        rw [Controller.concerning, h.elements_eq_nil hnone]
        rfl
      have hseconds := hb.secondIds h.traced hambiguous hquiet
      exact Or.inr ⟨_, _, hb.shortened h.founded.home hid hquiet hseconds hfound (hsole record i id hs hfound) hsub⟩

theorem stage_expire (h : Tended device ticket o p top m) (hq : m.queue = []) (now : Nat) :
    Staged device o.id m.accepted p top (m.controller.expire now) [] := by
  obtain ⟨⟨hdevice, hswitch, hstore, htracker⟩, -, hrequested, hreplies⟩ := m.controller.expire_spares now
  have hframe : Frame device (Key.l3Ecmp o.id) m.controller (m.controller.expire now) := by
    refine .of_switch hdevice hswitch hstore hrequested hreplies fun k rs hk => ?_
    rw [htracker] at hk
    exact Tracker.objectives_expire hk
  have hstage := h.stage
  rw [hq] at hstage
  rcases hstage with hu | ⟨record, cs, hb⟩
  · exact Or.inl (hu.frame hframe ((m.controller.elements_expire now).filter _).subperm)
  · have hsame : (m.controller.expire now).tracker.elements = m.controller.tracker.elements := by
      rw [htracker]
      exact Tracker.elements_expire_of_unregistered hb.unregistered now
    refine Or.inr ⟨record, cs, hb.frame hframe ?_ fun _ hr => hr⟩
    rw [Controller.concerning_congr hsame rfl]

/-! ## Moves -/

theorem stage_handle (h : Tended device ticket o p top m) (hidle : m.Idle) (hambiguous : Unambiguous m.accepted)
    {s : Stimulus} (ht : (Move.handle s).Tends device o.id m) :
    Staged device o.id (m.begin s).accepted p top (m.begin s).controller (m.begin s).queue := by
  obtain ⟨ha, -, hu, hsole⟩ := ht
  have hq := hidle.1
  have hstage := h.stage
  rw [hq] at hstage
  have hquiet : ∀ {d : Controller} {vs : List Work}, Frame device (Key.l3Ecmp o.id) m.controller d →
      d.tracker = m.controller.tracker → elementsOf vs = [] → Staged device o.id (m.accepted ++ []) p top d vs := by
    intro d vs hf ht hvs
    refine hstage.frame hf ?_ fun r hr => List.mem_append_left _ hr
    rw [Controller.concerning_congr (congrArg Tracker.elements ht) (hvs.trans elementsOf_nil.symm)]
  cases s with
  | request now r =>
    cases r with
    | addBucket a => exact h.stage_addBucket hq hu.2 hu.1 ha.1
    | removeBucket t u port => exact h.stage_removeBucket hq hu.2 hambiguous hu.1 hsole
    | install => exact hu.1.elim
    | remove => exact hu.1.elim
  | event e =>
    obtain ⟨kind, k⟩ := e
    cases kind with
    | added => exact hquiet (.refl _) rfl rfl
    | removed =>
      have hreleased : ∀ j ∈ (m.controller.release k).requested, j ∈ m.controller.requested := fun j hj =>
        List.mem_of_mem_filter hj
      exact hquiet (.of_switch rfl rfl rfl hreleased (fun _ hreply => Or.inl hreply) fun _ _ hj => hj) rfl rfl
    | error => exact hquiet (.refl _) rfl rfl
  | sweep => exact hquiet (.refl _) rfl (elementsOf_resolve _)
  | expire now => exact (h.stage_expire hq now).frame (.refl _) (List.Perm.refl _) fun r hr => List.mem_append_left _ hr

theorem stage_switch (h : Tended device ticket o p top m) (sm : SwitchMove) :
    Staged device o.id m.accepted p top { m.controller with switch := m.controller.switch.move sm } m.queue := by
  have hstands : ∀ k, m.controller.Stands k →
      Controller.Stands { m.controller with switch := m.controller.switch.move sm } k := fun k => Switch.stands_move sm
  rcases h.stage with hu | ⟨record, cs, hb⟩
  · refine Or.inl ⟨hu.store, hu.failed, hu.single, hu.creates, fun hne => ?_, hu.buckets.move sm, ?_,
      hu.exclusive.move sm, hu.registered⟩
    · exact ⟨fun hk => (hu.unknown hne).1 (Switch.knows_of_move hk), (hu.unknown hne).2⟩
    · intro hk j hj
      exact hstands j (hu.below (Switch.knows_of_move hk) j hj)
  · obtain ⟨hinstalled, hheld⟩ := Switch.get?_move_of_unheld hb.unheld sm
    have hframe : Frame device (Key.l3Ecmp o.id) m.controller
        { m.controller with switch := m.controller.switch.move sm } :=
      ⟨rfl, hstands, hinstalled, hheld.trans hb.unheld.symm, id, fun _ hreply => Or.inl hreply, fun _ _ hj => hj⟩
    exact Or.inr ⟨record, cs, hb.frame hframe (List.Perm.refl _) fun _ hr => hr⟩

theorem deferred_step (h : Tended device ticket o p top m) {move : Move} (ht : move.Updates o.id m) (n : UInt32) :
    (m.step move).controller.deferred.get? n = none := by
  cases move with
  | work =>
    simp only [Moment.step, Moment.work]
    split
    · exact h.deferred n
    · exact Controller.deferred_process h.deferred _ n
  | handle s =>
    rw [Moment.step]
    split_ifs
    · cases s with
      | request now r =>
        have hempty := (h.founded.consistent.eq_empty ht.2).2.2
        exact Controller.deferred_opening h.deferred hempty ht.1 n
      | event e =>
        obtain ⟨kind, k⟩ := e
        cases kind <;> exact h.deferred n
      | sweep => exact h.deferred n
      | expire now => exact (m.controller.expire_spares now).2.1 n (h.deferred n)
    · exact h.deferred n
  | switch sm => exact h.deferred n

theorem traced_step (h : Tended device ticket o p top m) {move : Move} (hremoves : ¬move.removes) :
    (m.step move).controller.switch.Traced device (m.step move).accepted := by
  cases move with
  | work =>
    cases hq : m.queue with
    | nil =>
      simp only [Moment.step, Moment.work, hq]
      exact h.traced
    | cons w ws =>
      simp only [Moment.step, Moment.work, hq]
      exact h.traced.process (hq ▸ h.founded)
  | handle s =>
    rw [Moment.step]
    split_ifs
    · exact (h.traced.opening hremoves).mono fun r hr => List.mem_append_left _ hr
    · exact h.traced
  | switch sm => exact Switch.All.move h.traced sm

/-- **One move.** -/
theorem step (h : Tended device ticket o p top m) (hp : p.Spreads o.id false top chains)
    (hambiguous : Unambiguous m.accepted) {move : Move} (ht : move.Tends device o.id m) :
    Tended device ticket o p top (m.step move) := by
  have hremoves := ht.updates.peaceful
  have hstands : ∀ k, m.controller.Stands k → (m.step move).controller.Stands k := fun k =>
    Moment.stands_step hremoves
  refine ⟨?_, Moment.accepted_step h.installs move, ?_, h.deferred_step ht.updates, h.traced_step hremoves, ?_⟩
  · refine (h.founded.mono hstands).step ht.admissible hremoves hstands ?_
    rintro k rfl
    exact hstands k (ht.truthful k rfl)
  · intro r hr
    rcases Moment.of_accepted_step hr with hr | hr
    · exact h.updates r hr
    · cases move with
      | handle s =>
        cases s with
        | request now q =>
          cases hr
          exact Or.inr ht.updates.1
        | _ => cases hr
      | _ => cases hr
  · cases move with
    | work => exact h.stage_work hp
    | handle s =>
      rw [Moment.step]
      split_ifs with hidle
      · exact h.stage_handle hidle hambiguous ht
      · exact h.stage
    | switch sm => exact h.stage_switch sm

/-- **A run.** The condition on keys is for the requests that are accepted in the end. -/
theorem run {acc : List Request} (h : Tended device ticket o p top m) (hp : p.Spreads o.id false top chains)
    (hambiguous : Unambiguous acc) {moves : List Move} (hsub : ∀ r ∈ (m.run moves).accepted, r ∈ acc)
    (ht : Allowed (fun m move => move.Tends device o.id m) m moves) : Tended device ticket o p top (m.run moves) := by
  induction moves generalizing m with
  | nil => exact h
  | cons move moves ih =>
    have hnow : Unambiguous m.accepted :=
      hambiguous.anti fun r hr => hsub r (Moment.accepted_run (Moment.accepted_step hr move) moves)
    exact ih (h.step hp hnow ht.1) hsub ht.2

/-- the request to install is accepted, and its elements are registered -/
theorem start {index : UInt32} (hplan : ((Planner.mk device index).build o).1 = .ok p)
    (hp : p.Spreads o.id false top chains) (delay : Nat) (isAutomatic : Bool) (metrics : Metrics) (now : Nat) :
    Tended device ticket o p top ((Moment.start device delay (.fresh isAutomatic) .empty metrics).step
      (.handle (.request now (.install ticket o p)))) := by
  let c₀ := Controller.start device delay (.fresh isAutomatic) .empty metrics
  let t := c₀.tracker.registerObjective p.topKey ⟨ticket, o, p.record, p.topId⟩ now
  let c : Controller := { c₀ with tracker := (t.registerAll p.topKey p.elements).1 }
  let ws : List Work := (t.registerAll p.topKey p.elements).2.map .element ++ p.initial.map .create
  have hopening : c₀.opening (.request now (.install ticket o p)) = (c, ws) := c₀.opening_install now ticket o p
  have hbegin : (Moment.start device delay (.fresh isAutomatic) .empty metrics).step
      (.handle (.request now (.install ticket o p))) = ⟨c, ws, [.install ticket o p], p.elements, []⟩ := by
    have hidle : (Moment.start device delay (.fresh isAutomatic) .empty metrics).Idle := ⟨rfl, rfl⟩
    rw [Moment.step, if_pos hidle]
    exact congrArg (fun x => Moment.mk x.1 x.2 [.install ticket o p] p.elements []) hopening
  have hplanned : (Request.install ticket o p).Planned device := ⟨index, hplan⟩
  have hfounded : Founded (fun _ => False) device [.install ticket o p]
      (c₀.opening (.request now (.install ticket o p))).1 (c₀.opening (.request now (.install ticket o p))).2 :=
    (founded_start _ device delay _ _ _).request hplanned now Bool.false_ne_true
  have hone : c.concerning ws (Key.l3Ecmp o.id) = [top] := by
    have hperm := (perm_registerAll t p.topKey p).filter fun e => e.descriptor.key = Key.l3Ecmp o.id
    have hnone : t.elements = [] := rfl
    rw [hnone, List.append_nil, hp.filter_elements] at hperm
    exact List.perm_singleton.1 hperm
  have hunknown : ∀ place, ¬c.switch.Knows place := by
    rintro place (⟨d, hd⟩ | ⟨d, hd⟩) <;> cases hd
  have hfresh : ∀ P, c.switch.All P := fun P => Switch.all_fresh P isAutomatic
  rw [hopening] at hfounded
  rw [hbegin]
  refine ⟨hfounded.mono fun _ => False.elim, List.mem_cons_self, fun r hr => Or.inl (List.mem_singleton.1 hr),
    fun _ => rfl, hfresh _, Or.inl ⟨Store.get_empty _, ?_, ?_, ?_, ?_, hfresh _, ?_, ?_, ?_⟩⟩
  · intro reply hreply
    cases hreply
  · rw [hone]
    exact Nat.le_refl 1
  · rw [hone]
    exact fun e => List.mem_singleton.1
  · exact fun _ => ⟨hunknown _, List.not_mem_nil⟩
  · exact fun hk => absurd hk (hunknown _)
  · exact fun hs => absurd (Or.inl hs) (hunknown _)
  · intro k rs hk
    simp only [c, t, Tracker.objectives_registerAll, Tracker.registerObjective, Registry.get?_insert] at hk
    split_ifs at hk with htop
    · cases hk
      refine ⟨htop.trans hp.topKey, fun r hr => ?_⟩
      rw [List.mem_singleton.1 hr]
    · cases hk

end Tended

/-- **The buckets of the group are those of the record.** A hashed objective is installed over an empty store and an
empty switch, and every later request adds a bucket to it or removes one while nothing is pending, removing a bucket
only where no other points to the same group. If groups of accepted plans with the key of one that stands second in a
chain have its id, then between handlers, whenever nothing is pending and the request to install was answered with
success: the groups that stand second in the chains of the record are on the device, and the buckets of the ECMP group
point to just these, in the order of the chains. -/
theorem buckets_match_record {device : DeviceId} {index : UInt32} {delay : Nat} {isAutomatic : Bool}
    {metrics : Metrics} {now : Nat} {ticket : Ticket} {o : Objective} {p : Plan} {moves : List Move} {id : GroupId}
    (hkind : o.kind = .hashed) (hplan : ((Planner.mk device index).build o).1 = .ok p)
    (h : Allowed (fun m move => move.Tends device o.id m)
      ((Moment.start device delay (.fresh isAutomatic) .empty metrics).step
        (.handle (.request now (.install ticket o p)))) moves) :
    let m := ((Moment.start device delay (.fresh isAutomatic) .empty metrics).step
      (.handle (.request now (.install ticket o p)))).run moves
    let c := m.controller
    Unambiguous m.accepted → m.queue = [] → c.tracker.pendingKeys = [] → ⟨ticket, .installed id⟩ ∈ c.replies →
      ∃ (record : Record) (d : Descriptor) (ids : List GroupId),
        c.store.get o.id = .ok (some record) ∧ c.group? (Key.l3Ecmp o.id) = some d ∧
        c.secondIds record = ids.map some ∧ d.buckets = ids.map Bucket.toGroup := by
  intro m c hambiguous hq hnone hreply
  obtain ⟨top, chains, hp⟩ := Planner.spreads_build hkind hplan
  have hm : Tended device ticket o p top m :=
    (Tended.start hplan hp delay isAutomatic metrics now).run hp hambiguous (fun r hr => hr) h
  rcases hm.stage with hu | ⟨record, cs, hb⟩
  · obtain ⟨e, he⟩ := hu.failed _ hreply
    cases he
  · have hquiet : c.concerning m.queue (Key.l3Ecmp o.id) = [] := by
      rw [hq, Controller.concerning, hm.elements_eq_nil hnone]
      rfl
    obtain ⟨d, hd, hbuckets⟩ := hb.group
    rw [hquiet, List.flatMap_nil, List.append_nil] at hbuckets
    refine ⟨record, d, cs.map (·.head.id), hb.store, ?_, hb.secondIds hm.traced hambiguous hquiet, ?_⟩
    · rw [Controller.group?, Switch.group?, hm.founded.home]
      exact hd
    · rw [hbuckets, List.map_map]
      rfl

namespace Sample

/-- a second bucket, through port 8 -/
def far : Objective :=
  ⟨4, .hashed, [⟨[.setEthDst dst, .setVlanId ⟨10⟩, .output ⟨8⟩]⟩], ⟨"sample"⟩, none⟩

def farInner : Descriptor :=
  far.descriptor device .indirect [⟨⟨[.output ⟨8⟩]⟩⟩] (Key.l2Interface device ⟨10⟩ ⟨8⟩) (GroupId.l2Interface ⟨10⟩ ⟨8⟩)

def farOuter : Descriptor :=
  far.descriptor device .indirect [⟨⟨[.setEthDst dst, .setVlanId ⟨10⟩, .group farInner.id]⟩⟩]
    (Key.l3Unicast device .zero dst ⟨8⟩) (GroupId.l3Unicast .zero dst ⟨8⟩)

def farAddition : Addition :=
  ⟨1, far, far.planEcmp device
    [⟨farInner, [.after farOuter [farInner.key] false], farOuter, [farOuter.key, farInner.key]⟩] true⟩

/-- both groups of the second bucket are asked for and confirmed -/
def farConfirmed : List Move :=
  .work :: confirmed farInner.key ++ [.work, .work] ++ confirmed farOuter.key ++ [.work, .work]

/-- the second bucket is added, and the first removed -/
def swapped : List Move :=
  hashedConfirmed ++ (.handle (.request 0 (.addBucket farAddition)) :: farConfirmed) ++
    [.handle (.request 0 (.removeBucket 2 (hashed ⟨10⟩) ⟨7⟩))]

end Sample

/-- without requests, it is enough that what is reported added is there -/
theorem allowed_tends {device : DeviceId} {n : UInt32} {moves : List Move}
    (hnone : ∀ move ∈ moves, move.request? = none) {m : Moment} (h : Allowed (fun m move => move.Truthful m) m moves) :
    Allowed (fun m move => move.Tends device n m) m moves := by
  induction moves generalizing m with
  | nil => trivial
  | cons move moves ih =>
    have hsilent := hnone move List.mem_cons_self
    refine ⟨?_, ih (fun v hv => hnone v (List.mem_cons_of_mem move hv)) h.2⟩
    cases move with
    | handle s =>
      cases s with
      | request now r => cases hsilent
      | _ => exact ⟨trivial, h.1, trivial, trivial⟩
    | _ => exact ⟨trivial, h.1, trivial, trivial⟩

theorem unambiguous_of_groups {acc : List Request}
    (h : ∀ r ∈ acc, ∀ p ∈ r.plan?, ∀ d ∈ p.descriptors, ∀ s ∈ acc, ∀ q ∈ s.plan?, ∀ e ∈ q.descriptors,
      e.key = d.key → e.id = d.id) : Unambiguous acc := by
  rintro d e ⟨r, hr, p, hp, hd, -⟩ ⟨s, hs, q, hq, he⟩
  exact h r hr p hp d hd s hs q hq e he

/-- one bucket is left, in the group and in the record -/
theorem swapped_buckets_match :
    let c := ((Sample.start.step (.handle (.request 0 Sample.hashedRequest))).run Sample.swapped).controller
    ∃ (record : Record) (d : Descriptor) (ids : List GroupId),
      c.store.get (Sample.hashed ⟨10⟩).id = .ok (some record) ∧
      c.group? (Key.l3Ecmp (Sample.hashed ⟨10⟩).id) = some d ∧
      c.secondIds record = ids.map some ∧ d.buckets = ids.map Bucket.toGroup := by
  let m := Sample.start.step (.handle (.request 0 Sample.hashedRequest))
  let n := m.run (Sample.hashedConfirmed ++ (.handle (.request 0 (.addBucket Sample.farAddition)) :: Sample.farConfirmed))
  let record := (Sample.hashedPlan ⟨10⟩).record.append Sample.farAddition.plan.record
  have hplan : ((Planner.mk Sample.device 0).build (Sample.hashed ⟨10⟩)).1 = .ok (Sample.hashedPlan ⟨10⟩) := rfl
  have hadd : (Request.addBucket Sample.farAddition).Planned Sample.device := ⟨0, rfl⟩
  have hremove : (Request.removeBucket 2 (Sample.hashed ⟨10⟩) ⟨7⟩).Planned Sample.device := rfl
  have hsole : (Request.removeBucket 2 (Sample.hashed ⟨10⟩) ⟨7⟩).Sole n.controller := by
    intro stored i id hs hf
    have hrecord : n.controller.store.get (Sample.hashed ⟨10⟩).id = .ok (some record) := by decide +kernel
    cases hrecord.symm.trans hs
    have hfound : n.controller.findChain? ⟨7⟩ record.chains = some (0, (Sample.outer ⟨10⟩).id) := by decide +kernel
    cases hfound.symm.trans hf
    decide +kernel
  have h : Allowed (fun m move => move.Tends Sample.device (Sample.hashed ⟨10⟩).id m) m Sample.swapped := by
    refine allowed_append.2 ⟨allowed_append.2 ⟨allowed_tends (by decide +kernel) (by decide +kernel), ?_, ?_⟩, ?_, trivial⟩
    · exact ⟨⟨hadd, by decide +kernel⟩, by decide +kernel, ⟨rfl, by decide +kernel⟩, trivial⟩
    · exact allowed_tends (by decide +kernel) (by decide +kernel)
    · exact ⟨⟨hremove, by decide +kernel⟩, by decide +kernel, ⟨rfl, by decide +kernel⟩, hsole⟩
  have hq : (m.run Sample.swapped).queue = [] := by decide +kernel
  have hnone : (m.run Sample.swapped).controller.tracker.pendingKeys = [] := by decide +kernel
  have hreply : ⟨0, .installed (GroupId.l3Ecmp 4)⟩ ∈ (m.run Sample.swapped).controller.replies := by decide +kernel
  have hambiguous : Unambiguous (m.run Sample.swapped).accepted := unambiguous_of_groups (by decide +kernel)
  simp only [m] at h hq hnone hreply hambiguous
  unfold Sample.start Sample.hashedRequest at h hq hnone hreply hambiguous ⊢
  exact buckets_match_record rfl hplan h hambiguous hq hnone hreply

/-! ## Equal buckets -/

namespace Sample

/-- the bucket that is there already is added once more, and every event has been delivered -/
def doubled : List Move :=
  .handle (.request 0 (.addBucket (addition 1 ⟨10⟩))) :: List.replicate 6 .work ++ [.switch (.scramble [])]

/-- the record of the objective with the same bucket twice -/
def doubledRecord : Record := (hashedPlan ⟨10⟩).record.append (addition 1 ⟨10⟩).plan.record

end Sample

/-- **Two equal buckets are removed together.** The one bucket of an objective is added once more. Then one is removed;
before and after, nothing is pending and no event is undelivered. The ECMP group has no bucket left, and the record one
chain. -/
theorem equal_buckets_drift :
    let m := (Sample.start.run Sample.hashedInstalled).run Sample.doubled
    let n := m.step (.handle (.request 0 (.removeBucket 2 (Sample.hashed ⟨10⟩) ⟨7⟩)))
    let left : Record := { Sample.doubledRecord with chains := Sample.doubledRecord.chains.eraseIdx 0 }
    Allowed (fun m move => move.Admissible Sample.device m) Sample.start (Sample.hashedInstalled ++ Sample.doubled) ∧
      Unambiguous n.accepted ∧
      (m.queue = [] ∧ m.controller.tracker.pendingKeys = [] ∧ m.controller.switch.events = []) ∧
      (n.queue = [] ∧ n.controller.tracker.pendingKeys = [] ∧ n.controller.switch.events = []) ∧
      ⟨2, .installed (GroupId.l3Ecmp 4)⟩ ∈ n.controller.replies ∧
      n.controller.store.get 4 = .ok (some left) ∧
      n.controller.secondIds left = [some (Sample.outer ⟨10⟩).id] ∧
      (n.controller.group? (Key.l3Ecmp 4)).map (·.buckets) = some [] := by
  intro m n left
  have hadd : (Request.addBucket (Sample.addition 1 ⟨10⟩)).Planned Sample.device := ⟨0, rfl⟩
  refine ⟨allowed_append.2 ⟨Sample.admissible_hashedInstalled, ⟨hadd, by decide +kernel⟩,
    allowed_admissible (by decide +kernel) _⟩, ?_, by decide +kernel, by decide +kernel, by decide +kernel,
    by decide +kernel, by decide +kernel, by decide +kernel⟩
  exact unambiguous_of_groups (by decide +kernel)

end FlowGroups
