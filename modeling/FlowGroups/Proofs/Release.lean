/-
What expiry releases. An objective has an entry in the expiry queue for as long as it waits (`Timed`), so that once all
deadlines are there none waits any more; with it go the elements under its key and the keys of its record.

- `Lasting`: what every operation keeps of a tracker holds all along a run.
- `expiry_releases_registered`: exactly that is left which no waiting objective stands for, and a key that is not
  marked as requested is asked for again.
- `expiry_leaves_added_bucket`: a bucket on its way to an installed objective is such a remainder.
-/
import FlowGroups.Proofs.Expiry
import FlowGroups.Proofs.Removal
import FlowGroups.Proofs.Chronicle

namespace FlowGroups

/-! ## Invariants of the tracker -/

/-- what every operation keeps of a tracker, if all requests are as `ok` says -/
structure Lasting (ok : Request → Prop) (P : Tracker → Prop) : Prop where
  register : ∀ t r p, ok r → r.plan? = some p → P t → P (t.registerAll p.topKey p.elements).1
  install : ∀ t ticket o p now, ok (.install ticket o p) → P t →
    P (t.registerObjective p.topKey ⟨ticket, o, p.record, p.topId⟩ now)
  advance : ∀ t k ids, t.groups.get? k = some ids → P t → P (t.advance k ids)
  discharge : ∀ t k, P t → P (t.discharge k)
  expire : ∀ t now, P t → P (t.expire now).1
  take : ∀ t n, P t → P (t.takeObjective n).1

namespace Lasting

variable {ok : Request → Prop} {P : Tracker → Prop} {c : Controller}

theorem process (hP : Lasting ok P) (hd : ∀ n a, c.deferred.get? n = some a → ok (.addBucket a)) (h : P c.tracker)
    (w : Work) : P (c.process w).1.tracker := by
  have hdone := c.performs w
  generalize c.process w = x at hdone ⊢
  cases hdone with
  | awaited | found | ask | addBuckets => exact h
  | confirm k =>
    rcases c.confirm_cases k with ⟨ids, hids, he⟩ | ⟨rs, -, -, he⟩ | he
    · rw [he]
      exact hP.advance _ k ids hids h
    · rw [he]
      refine (Controller.completeAll_keeps (c := { c.release k with tracker := c.tracker.discharge k })
        (P := fun _ d _ => P d.tracker ∧ ∀ n a, d.deferred.get? n = some a → ok (.addBucket a)) ?_
        ⟨hP.discharge _ k h, hd⟩).1
      rintro r rs d - ⟨ht, hdef⟩
      rcases d.complete_cases k r with ⟨a, ha, he⟩ | ⟨-, he⟩
      · rw [he, Controller.extend_eq]
        exact ⟨hP.register _ (.addBucket a) a.plan (hdef _ a ha) rfl ht,
          fun n b hb => hdef n b (Registry.of_get?_erase hb).2⟩
      · rw [he]
        exact ⟨ht, hdef⟩
    · rw [he]
      exact h

theorem opening (hP : Lasting ok P) (h : P c.tracker) (s : Stimulus) (hs : ∀ r, s.request? = some r → ok r) :
    P (c.opening s).1.tracker := by
  have hopens := c.opens s
  generalize c.opening s = x at hopens ⊢
  cases hopens with
  | install now ticket o p ht =>
    subst ht
    exact hP.register _ _ p (hs _ rfl) rfl (hP.install _ ticket o p now (hs _ rfl) h)
  | @extend now a => exact hP.register _ _ a.plan (hs _ rfl) rfl h
  | remove now ticket o =>
    rw [(c.remove_spares ticket o).2.1]
    exact hP.take _ o.id h
  | expire now =>
    rw [(c.expire_spares now).1.2.2.2]
    exact hP.expire _ now h
  | defer | refuseBucket | detach | refuseDetach | added | removed | error | sweep => exact h

theorem step {m : Moment} (hP : Lasting ok P)
    (hd : ∀ n a, m.controller.deferred.get? n = some a → .addBucket a ∈ m.accepted) {move : Move}
    (hok : ∀ r ∈ (m.step move).accepted, ok r) (h : P m.controller.tracker) : P (m.step move).controller.tracker := by
  have hold : ∀ r ∈ m.accepted, ok r := fun r hr => hok r (Moment.accepted_step hr move)
  cases move with
  | work =>
    simp only [Moment.step, Moment.work]
    split
    · exact h
    · exact hP.process (fun n a ha => hold _ (hd n a ha)) h _
  | handle s =>
    rw [Moment.step] at hok ⊢
    split_ifs at hok ⊢
    · exact hP.opening h s fun r hr => hok r (List.mem_append_right _ (Option.mem_toList.2 hr))
    · exact h
  | switch sm => exact h

/-- **What every operation keeps holds all along a run.** -/
theorem run {device : DeviceId} {m : Moment} (hP : Lasting ok P)
    (hf : Founded (fun _ => True) device m.accepted m.controller m.queue) {moves : List Move}
    (ha : Allowed (fun m move => move.Admissible device m) m moves) (hok : ∀ r ∈ (m.run moves).accepted, ok r)
    (h : P m.controller.tracker) : P (m.run moves).controller.tracker := by
  induction moves generalizing m with
  | nil => exact h
  | cons move moves ih =>
    apply ih (hf.step_any ha.1) ha.2 hok
    exact hP.step hf.deferred (fun r hr => hok r (Moment.accepted_run hr moves)) h

end Lasting

namespace Tracker

theorem lasting_timed (ok : Request → Prop) : Lasting ok Timed where
  register t r p _ _ h := by
    obtain ⟨hq, hg⟩ := times_registerAll t p.topKey p.elements
    exact h.shrink hq hg fun k rs hk => ⟨rs, objectives_registerAll t p.topKey p.elements ▸ hk, rfl⟩
  install t ticket o p now _ h := h.registerObjective p.topKey _ now
  advance _ _ _ _ h := h.shrink rfl rfl fun _ rs hk => ⟨rs, hk, rfl⟩
  discharge _ _ h := h.shrink rfl rfl fun _ rs hk => ⟨rs, (Registry.of_get?_erase hk).2, rfl⟩
  expire _ now h := h.expire now
  take _ n h := h.takeObjective n

end Tracker

/-! ## Keys marked as requested -/

namespace Controller

/-- objectives that are given up release their keys, except those that something still waits for -/
theorem requested_abandon (rs : List Registrant) (c : Controller) (k : Key) :
    k ∈ (c.abandon rs).requested ↔
      k ∈ c.requested ∧ ∀ r ∈ rs, k ∈ r.record.distinctKeys → c.tracker.isPending k = true := by
  induction rs generalizing c with
  | nil => simp [abandon]
  | cons r rs ih =>
    have hone : (c.abandonOne r).tracker = c.tracker ∧ (c.abandonOne r).requested = (c.failed r).requested := by
      rcases c.abandonOne_cases r with ⟨a, -, he⟩ | ⟨-, he⟩ <;> rw [he] <;> exact ⟨rfl, rfl⟩
    have hfailed : k ∈ (c.failed r).requested ↔
        k ∈ c.requested ∧ (k ∈ r.record.distinctKeys → c.tracker.isPending k = true) := by
      simp [failed, unclaimed, imp_iff_not_or]
    rw [abandon, List.foldl_cons, ← abandon, ih, hone.1, hone.2, hfailed, List.forall_mem_cons, and_assoc]

theorem requested_expire (c : Controller) (now : Nat) (k : Key) :
    k ∈ (c.expire now).requested ↔
      k ∈ c.requested ∧ ∀ r ∈ (c.tracker.expire now).2.flatMap Prod.snd,
        k ∈ r.record.distinctKeys → (c.tracker.expire now).1.isPending k = true := by
  rw [expire_eq]
  exact requested_abandon _ _ k

theorem requested_giveUp (c : Controller) (n : UInt32) (k : Key) :
    k ∈ (c.giveUp n).requested ↔
      k ∈ c.requested ∧ ∀ r ∈ (c.tracker.takeObjective n).2,
        k ∈ r.record.distinctKeys → (c.tracker.takeObjective n).1.isPending k = true := by
  unfold giveUp
  split_ifs with hnone
  · simp [hnone]
  · exact requested_abandon _ _ k

/-- a removal releases the keys of what it gives up and of what it removes, and no others -/
theorem requested_remove (c : Controller) (ticket : Ticket) (o : Objective) :
    (∀ k ∈ (c.remove ticket o).requested, k ∈ c.requested) ∧
      ∀ k ∈ c.requested, k ∈ (c.remove ticket o).requested ∨
        (∃ r ∈ (c.tracker.takeObjective o.id).2, k ∈ r.record.distinctKeys) ∨
        ¬(c.remove ticket o).switch.Holds (c.device, k) := by
  have hwithdraw : (c.withdraw o.id).requested = c.requested := by
    unfold withdraw
    split <;> rfl
  obtain ⟨hdw, -, htw, -⟩ := c.withdraw_spares o.id
  obtain ⟨hdg, -, -, -⟩ := (c.withdraw o.id).giveUp_spares o.id
  have hgiveUp := (c.withdraw o.id).requested_giveUp o.id
  rw [hwithdraw, htw] at hgiveUp
  have hkept : ∀ k ∈ c.requested, k ∈ ((c.withdraw o.id).giveUp o.id).requested ∨
      ∃ r ∈ (c.tracker.takeObjective o.id).2, k ∈ r.record.distinctKeys := by
    intro k hk
    by_contra hnone
    rw [not_or, not_exists] at hnone
    exact hnone.1 ((hgiveUp k).2 ⟨hk, fun r hr hmem => absurd ⟨hr, hmem⟩ (hnone.2 r)⟩)
  rw [remove_eq]
  rcases ((c.withdraw o.id).giveUp o.id).deleteStored_cases ticket o with ⟨e, stop, he⟩ | ⟨existing, -, he⟩
  · rw [he]
    exact ⟨fun k hk => ((hgiveUp k).1 hk).1, fun k hk => (hkept k hk).imp_right Or.inl⟩
  · rw [he]
    refine ⟨fun k hk => ((hgiveUp k).1 (List.mem_of_mem_filter hk)).1, fun k hk => ?_⟩
    by_cases hmem : k ∈ existing.distinctKeys
    · refine Or.inr (Or.inr fun hholds => (Switch.holds_removeGroups_iff.1 hholds).2 ⟨?_, hmem⟩)
      exact (hdg.trans hdw).symm
    · refine (hkept k hk).imp (fun hk => List.mem_filter.2 ⟨hk, ?_⟩) Or.inl
      simpa using hmem

theorem requested_opening {c : Controller} {s : Stimulus} {k : Key} (h : k ∈ (c.opening s).1.requested) :
    k ∈ c.requested := by
  by_cases hr : (Move.handle s).removes = true
  · cases s with
    | request now r =>
      cases r with
      | remove ticket o => exact (c.requested_remove ticket o).1 k h
      | _ => cases hr
    | _ => cases hr
  · exact (same_opening hr).requested k h

end Controller

namespace Moment

/-- was the group asked for between two moments? -/
def Sent (n q : Moment) (k : Key) : Prop :=
  ∃ later, q.controller.switch.sent = n.controller.switch.sent ++ later ∧ k ∈ later

theorem sent_step (m : Moment) (move : Move) :
    ∃ later, (m.step move).controller.switch.sent = m.controller.switch.sent ++ later := by
  obtain ⟨new, hops, -⟩ := m.ops_step move
  rw [Switch.sent, hops, List.filterMap_append]
  exact ⟨_, rfl⟩

theorem Sent.step {n q : Moment} {k : Key} (h : n.Sent q k) (move : Move) : n.Sent (q.step move) k := by
  obtain ⟨earlier, he, hk⟩ := h
  obtain ⟨later, hl⟩ := q.sent_step move
  exact ⟨earlier ++ later, by rw [hl, he, List.append_assoc], List.mem_append_left _ hk⟩

/-- the group that the next item of the queue asks for -/
theorem sent_work {q : Moment} {w : Work} {ws : List Work} {d : Descriptor} (hq : q.queue = w :: ws)
    (hw : Controller.Asks w d) (hr : d.key ∉ q.controller.requested) (hs : ¬q.controller.Stands d.key) :
    (q.step .work).controller.switch.sent = q.controller.switch.sent ++ [d.key] := by
  have hprocess : q.controller.process w = (q.controller.asked d, []) := by
    have hsubmit : q.controller.submit d = (q.controller.asked d, []) := by
      rcases q.controller.submit_cases d with ⟨hk, -⟩ | ⟨hk, -⟩ | he
      · exact absurd hk hr
      · exact absurd hk hs
      · exact he
    rcases hw with rfl | ⟨e, rfl, hb, rfl⟩
    · exact hsubmit
    · simp only [Controller.process, Controller.act, hb]
      exact hsubmit
  simp only [step, work, hq, hprocess]
  exact Switch.sent_addGroup _ d

/-- a key is marked as requested when its group is asked for -/
theorem requested_step {m : Moment} {move : Move} {k : Key} (h : k ∈ (m.step move).controller.requested) :
    k ∈ m.controller.requested ∨ (m.step move).controller.switch.sent = m.controller.switch.sent ++ [k] := by
  cases move with
  | work =>
    simp only [step, work] at h ⊢
    split at h
    · exact Or.inl h
    · rename_i w ws hq
      rcases m.controller.process_groups w with hs | ⟨d, -, he⟩
      · exact Or.inl (hs.requested k h)
      · rw [he] at h
        rcases List.mem_cons.1 h with rfl | h
        · simp only [he]
          exact Or.inr (Switch.sent_addGroup _ d)
        · exact Or.inl h
  | handle s =>
    rw [step] at h
    split_ifs at h
    · exact Or.inl (Controller.requested_opening h)
    · exact Or.inl h
  | switch sm => exact Or.inl h

/-- whatever is marked was marked at an earlier moment, or asked for since -/
def Marks (n q : Moment) : Prop :=
  (∃ later, q.controller.switch.sent = n.controller.switch.sent ++ later) ∧
    ∀ k ∈ q.controller.requested, k ∈ n.controller.requested ∨ n.Sent q k

theorem Marks.step {n q : Moment} (h : n.Marks q) (move : Move) : n.Marks (q.step move) := by
  obtain ⟨earlier, he⟩ := h.1
  obtain ⟨later, hl⟩ := q.sent_step move
  refine ⟨⟨earlier ++ later, by rw [hl, he, List.append_assoc]⟩, fun k hk => ?_⟩
  rcases requested_step hk with hk | hsent
  · exact (h.2 k hk).imp_right fun hs => hs.step move
  · exact Or.inr ⟨earlier ++ [k], by rw [hsent, he, List.append_assoc], by simp⟩

theorem Marks.run {n q : Moment} (h : n.Marks q) (moves : List Move) : n.Marks (q.run moves) := by
  induction moves generalizing q with
  | nil => exact h
  | cons move moves ih => exact ih (h.step move)

end Moment

/-! ## What expiry leaves -/

/-- where no objective waits, a key is pending just if an element waits for it -/
theorem Tracker.Consistent.isPending_iff {t : Tracker} (h : t.Consistent) (hnone : t.objectives = .empty) (k : Key) :
    t.isPending k = true ↔ ∃ w ∈ t.waiting, w.id ∈ t.awaiting k := by
  rw [isPending, hnone, Bool.or_eq_true, Registry.contains_iff]
  constructor
  · rintro (⟨ids, hids⟩ | hcontains)
    · obtain ⟨id, hid⟩ := List.exists_mem_of_ne_nil ids (h.awaited k ids hids)
      have ha : id ∈ t.awaiting k := by
        rw [awaiting, hids]
        exact hid
      obtain ⟨w, hw, rfl, -⟩ := h.listed k id ha
      exact ⟨w, hw, ha⟩
    · cases hcontains
  · rintro ⟨w, -, ha⟩
    cases hids : t.groups.get? k with
    | some ids => exact Or.inl ⟨ids, rfl⟩
    | none => simp [awaiting, hids] at ha

/-- **Expiry releases what waiting objectives stand for.** When expiry is handled at or past every deadline, no
objective waits any more. Just those elements are left under whose top-level key no objective waited, and just those
keys stay marked as requested that such an element waits for, or that no waiting objective has in its record. Whenever,
in any run from then on, the group of another key is wanted, it stands by then or is asked for again. -/
theorem expiry_releases_registered {device : DeviceId} {delay : Nat} {switch : Switch} {store : Store}
    {metrics : Metrics} {before since : List Move} {now : Nat}
    (h : Allowed (fun m move => move.Admissible device m) (.start device delay switch store metrics)
      (before ++ .handle (.expire now) :: since))
    (hidle : ((Moment.start device delay switch store metrics).run before).Idle)
    (hdue : ∀ e ∈ ((Moment.start device delay switch store metrics).run before).controller.tracker.expiry.entries,
      e.deadline ≤ now) :
    let m := (Moment.start device delay switch store metrics).run before
    let n := m.step (.handle (.expire now))
    let q := n.run since
    n.controller.tracker.objectives = .empty ∧
      (∀ w, w ∈ n.controller.tracker.waiting ↔
        w ∈ m.controller.tracker.waiting ∧ m.controller.tracker.objectives.get? w.owner = none) ∧
      (∀ k, k ∈ n.controller.requested ↔ k ∈ m.controller.requested ∧
        ((∃ w ∈ n.controller.tracker.waiting, w.id ∈ n.controller.tracker.awaiting k) ∨
          ∀ r ∈ m.controller.tracker.registrants, k ∉ r.record.distinctKeys)) ∧
      ∀ w ws d, q.queue = w :: ws → Controller.Asks w d → d.key ∉ n.controller.requested →
        q.controller.Stands d.key ∨ n.Sent (q.step .work) d.key := by
  intro m n q
  obtain ⟨hbefore, hexpire, -⟩ := allowed_append.1 h
  have hstart : Founded (fun _ => True) device (Moment.start device delay switch store metrics).accepted
      (Moment.start device delay switch store metrics).controller
      (Moment.start device delay switch store metrics).queue := founded_start _ _ _ _ _ _
  have hm : Founded (fun _ => True) device m.accepted m.controller m.queue := hstart.run_any hbefore
  have htimed : m.controller.tracker.Timed :=
    (Tracker.lasting_timed fun _ => True).run hstart hbefore (fun _ _ => trivial) (Tracker.timed_fresh delay)
  have hn : n = m.begin (.expire now) := if_pos hidle
  have ht : n.controller.tracker = (m.controller.tracker.expire now).1 := by
    rw [hn]
    exact (m.controller.expire_spares now).1.2.2.2
  obtain ⟨hnone, hwaiting⟩ := htimed.expire_all hdue
  rw [← ht] at hnone hwaiting
  refine ⟨hnone, hwaiting, fun k => ?_, fun w ws d hq hasks hd => ?_⟩
  · have hc : n.controller.tracker.Consistent := (hm.step_any hexpire).consistent
    have hpending := hc.isPending_iff hnone k
    have hgiven : ∀ r, r ∈ (m.controller.tracker.expire now).2.flatMap Prod.snd ↔
        r ∈ m.controller.tracker.registrants := by
      intro r
      have hperm := m.controller.tracker.registrants_expire now
      have hempty : (m.controller.tracker.expire now).1.registrants = [] := by
        rw [← ht, Tracker.registrants, hnone]
        rfl
      rw [hempty, List.append_nil] at hperm
      exact hperm.mem_iff.symm
    have hrequested : n.controller.requested = (m.controller.expire now).requested := by rw [hn]; rfl
    rw [hrequested, Controller.requested_expire, ← ht, ← hpending]
    simp only [hgiven]
    apply and_congr_right
    intro _
    by_cases hp : n.controller.tracker.isPending k = true <;> simp [hp]
  · by_cases hs : q.controller.Stands d.key
    · exact Or.inl hs
    · have hmarks : n.Marks q := Moment.Marks.run ⟨⟨[], by simp⟩, fun k hk => Or.inl hk⟩ since
      by_cases hr : d.key ∈ q.controller.requested
      · exact Or.inr (((hmarks.2 _ hr).resolve_left hd).step .work)
      · obtain ⟨earlier, he⟩ := hmarks.1
        refine Or.inr ⟨earlier ++ [d.key], ?_, by simp⟩
        rw [Moment.sent_work hq hasks hr hs, he, List.append_assoc]

/-! ## A sample -/

namespace Sample

/-- a bucket is added to the installed objective, and the switch rejects its interface group -/
def rejected : List Move :=
  [.handle (.request 0 (.addBucket (addition 1 ⟨20⟩))), .work, .switch (.reject (inner ⟨20⟩).key),
    .handle (.event ⟨.error, (inner ⟨20⟩).key⟩)]

/-- nothing but that interface group -/
def other : Objective := ⟨5, .simple, [⟨[.setVlanId ⟨20⟩, .output ⟨7⟩]⟩], ⟨"sample"⟩, none⟩

def otherPlan : Plan := ⟨5, [inner ⟨20⟩], [], ⟨5, [[(inner ⟨20⟩).key]]⟩, (inner ⟨20⟩).key, (inner ⟨20⟩).id⟩

def otherRequest : Move := .handle (.request 1000 (.install 2 other otherPlan))

end Sample

/-- the sample expires, and its interface group is asked for again when another objective wants it -/
theorem sample_is_released :
    let m := Sample.start.run Sample.asked
    let n := m.step (.handle (.expire 1000))
    let again := Move.handle (.request 1000 (.install 1 Sample.objective Sample.plan))
    (Sample.inner ⟨10⟩).key ∈ m.controller.requested ∧ n.controller.tracker.objectives = .empty ∧
      n.Sent ((n.run [.switch (.reject (Sample.inner ⟨10⟩).key), again]).step .work) (Sample.inner ⟨10⟩).key := by
  have h : Allowed (fun m move => move.Admissible Sample.device m) Sample.start
      (Sample.asked ++ .handle (.expire 1000) :: [.switch (.reject (Sample.inner ⟨10⟩).key),
        .handle (.request 1000 (.install 1 Sample.objective Sample.plan))]) :=
    ⟨⟨Sample.planned_request, List.not_mem_nil⟩, trivial, trivial, trivial, ⟨⟨0, rfl⟩, by decide +kernel⟩, trivial⟩
  have hidle : (Sample.start.run Sample.asked).Idle := by decide +kernel
  have hdue : ∀ e ∈ (Sample.start.run Sample.asked).controller.tracker.expiry.entries, e.deadline ≤ 1000 := by
    decide +kernel
  have hqueue : (((Sample.start.run Sample.asked).step (.handle (.expire 1000))).run
      [.switch (.reject (Sample.inner ⟨10⟩).key),
        .handle (.request 1000 (.install 1 Sample.objective Sample.plan))]).queue =
        [.create (Sample.inner ⟨10⟩)] := by
    decide +kernel
  have hfree : (Sample.inner ⟨10⟩).key ∉
      ((Sample.start.run Sample.asked).step (.handle (.expire 1000))).controller.requested := by
    decide +kernel
  have habsent : ¬(((Sample.start.run Sample.asked).step (.handle (.expire 1000))).run
      [.switch (.reject (Sample.inner ⟨10⟩).key),
        .handle (.request 1000 (.install 1 Sample.objective Sample.plan))]).controller.Stands
          (Sample.inner ⟨10⟩).key := by
    decide +kernel
  unfold Sample.start at h hidle hdue hqueue hfree habsent ⊢
  obtain ⟨hnone, -, -, hsent⟩ := expiry_releases_registered h hidle hdue
  exact ⟨by decide +kernel, hnone, (hsent _ _ _ hqueue (Or.inl rfl) hfree).resolve_left habsent⟩

/-- **A bucket on its way is not released.** A bucket is added to an installed objective, and its interface group is
rejected. Expiry past every deadline leaves the two elements waiting and the key marked as requested, though no
objective waits and the group is neither there nor held by the switch; and an objective over this very group that is
installed later asks for nothing. -/
theorem expiry_leaves_added_bucket :
    let m := Sample.start.run (Sample.hashedInstalled ++ Sample.rejected)
    let n := m.step (.handle (.expire 1000))
    let q := n.step Sample.otherRequest
    Allowed (fun m move => move.Admissible Sample.device m) Sample.start
        (Sample.hashedInstalled ++ Sample.rejected ++ [.handle (.expire 1000), Sample.otherRequest, .work]) ∧
      m.Idle ∧ (∀ e ∈ m.controller.tracker.expiry.entries, e.deadline ≤ 1000) ∧
      n.controller.tracker.objectives = .empty ∧ n.controller.tracker.waiting.length = 2 ∧
      n.controller.requested = [(Sample.inner ⟨20⟩).key] ∧
      q.queue = [.create (Sample.inner ⟨20⟩)] ∧ ¬q.controller.Knows (Sample.inner ⟨20⟩).key ∧
      (q.step .work).controller.switch.ops = n.controller.switch.ops := by
  have hadd : (Request.addBucket (Sample.addition 1 ⟨20⟩)).Planned Sample.device := ⟨0, rfl⟩
  have hother : (Request.install 2 Sample.other Sample.otherPlan).Planned Sample.device := ⟨0, rfl⟩
  have hrejected : Allowed (fun m move => move.Admissible Sample.device m) (Sample.start.run Sample.hashedInstalled)
      Sample.rejected := ⟨⟨hadd, by decide +kernel⟩, trivial, trivial, trivial, trivial⟩
  intro m n q
  refine ⟨allowed_append.2 ⟨allowed_append.2 ⟨Sample.admissible_hashedInstalled, hrejected⟩, trivial,
    ⟨hother, by decide +kernel⟩, trivial, trivial⟩, by decide +kernel, by decide +kernel, by decide +kernel,
    by decide +kernel, by decide +kernel, by decide +kernel, ?_, by decide +kernel⟩
  rintro (hs | ⟨d, hd⟩)
  · have habsent : ¬q.controller.Stands (Sample.inner ⟨20⟩).key := by decide +kernel
    exact habsent hs
  · have hnone : q.controller.switch.requested.get? (q.controller.device, (Sample.inner ⟨20⟩).key) = none := by
      decide +kernel
    rw [hnone] at hd
    cases hd

end FlowGroups
