/-
What a controller writes and never reads. Its answers, its count of failures and its gauges go out, and nothing that it
does depends on them: two controllers that differ only there do the same for ever.

- `Interspersed`: the answers of a controller, with refusals in between that were given in front of it.
- `Controller.Echoes`: one controller is another but for such refusals and for what its gauges show.
- `Echoes.drain`: work keeps this, and sets the gauges of both alike at its end.
- `Echoes.respond`: so does every handler.
-/
import FlowGroups.Proofs.Run

namespace FlowGroups

/-- the answers of the second list in their order, with so many refusals of requests that cannot be planned in
between -/
inductive Interspersed : Nat → List Reply → List Reply → Prop
  | refl (replies : List Reply) : Interspersed 0 replies replies
  | answer {n : Nat} {replies own : List Reply} (h : Interspersed n replies own) (reply : Reply) :
    Interspersed n (replies ++ [reply]) (own ++ [reply])
  | refuse {n : Nat} {replies own : List Reply} (h : Interspersed n replies own) (ticket : Ticket) (e : PlanError) :
    Interspersed (n + 1) (replies ++ [⟨ticket, .failed (.unplannable e)⟩]) own

theorem Interspersed.eq_of_none {n : Nat} {replies own : List Reply} (h : Interspersed n replies own) (hn : n = 0) :
    replies = own := by
  induction h with
  | refl replies => rfl
  | answer h reply ih => rw [ih hn]
  | refuse h ticket e ih => cases hn

namespace Controller

/-- the controller with gauges that show something else -/
def withGauges (c : Controller) (groups objectives : Nat) : Controller :=
  { c with metrics := { c.metrics with pendingGroups := groups, pendingObjectives := objectives } }

theorem updateGauges_eq (c : Controller) :
    c.updateGauges = c.withGauges c.tracker.pendingGroups c.tracker.pendingObjectives := rfl

/-- The first controller is the second but for so many refusals, which it counts as failures, and for its two gauges,
which show what is said here of those of the second. -/
def Echoes (n : Nat) (shown : Nat × Nat → Nat × Nat) (c d : Controller) : Prop :=
  ∃ replies, Interspersed n replies d.replies ∧
    let gauges := shown (d.metrics.pendingGroups, d.metrics.pendingObjectives)
    c = { d with
      replies
      metrics := { d.metrics with
        failed := n + d.metrics.failed, pendingGroups := gauges.1, pendingObjectives := gauges.2 } }

namespace Echoes

variable {n : Nat} {shown : Nat × Nat → Nat × Nat} {c d : Controller}

theorem refl (c : Controller) : Echoes 0 id c c := by
  refine ⟨c.replies, .refl _, ?_⟩
  rw [Nat.zero_add]
  rfl

theorem of_withGauges (c : Controller) (groups objectives : Nat) :
    Echoes 0 (fun _ => (groups, objectives)) (c.withGauges groups objectives) c := by
  refine ⟨c.replies, .refl _, ?_⟩
  rw [Nat.zero_add]
  rfl

/-- no refusals, and gauges that show the same -/
theorem eq (h : Echoes 0 id c d) : c = d := by
  obtain ⟨replies, hr, rfl⟩ := h
  rw [hr.eq_of_none rfl, Nat.zero_add]
  rfl

theorem refuse (h : Echoes n shown c d) (ticket : Ticket) (e : PlanError) :
    Echoes (n + 1) shown (c.countFailure.fail ticket (.unplannable e)) d := by
  obtain ⟨replies, hr, rfl⟩ := h
  refine ⟨_, hr.refuse ticket e, ?_⟩
  rw [Nat.add_right_comm]
  rfl

theorem tracker (h : Echoes n shown c d) : c.tracker = d.tracker := by
  obtain ⟨replies, -, rfl⟩ := h
  rfl

theorem deferred (h : Echoes n shown c d) : c.deferred = d.deferred := by
  obtain ⟨replies, -, rfl⟩ := h
  rfl

theorem store (h : Echoes n shown c d) : c.store = d.store := by
  obtain ⟨replies, -, rfl⟩ := h
  rfl

theorem isStopped (h : Echoes n shown c d) : c.isStopped = d.isStopped := by
  obtain ⟨replies, -, rfl⟩ := h
  rfl

theorem metrics (h : Echoes n id c d) : c.metrics = { d.metrics with failed := n + d.metrics.failed } := by
  obtain ⟨replies, -, rfl⟩ := h
  rfl

theorem with_tracker (h : Echoes n shown c d) (t : Tracker) :
    Echoes n shown { c with tracker := t } { d with tracker := t } := by
  obtain ⟨replies, hr, rfl⟩ := h
  exact ⟨_, hr, rfl⟩

theorem with_deferred (h : Echoes n shown c d) (deferred : Registry UInt32 Addition) :
    Echoes n shown { c with deferred } { d with deferred } := by
  obtain ⟨replies, hr, rfl⟩ := h
  exact ⟨_, hr, rfl⟩

theorem release (h : Echoes n shown c d) (k : Key) : Echoes n shown (c.release k) (d.release k) := by
  obtain ⟨replies, hr, rfl⟩ := h
  exact ⟨_, hr, rfl⟩

/-- the same answer to both -/
theorem reply (h : Echoes n shown c d) (ticket : Ticket) (outcome : Outcome) :
    Echoes n shown (c.reply ticket outcome) (d.reply ticket outcome) := by
  obtain ⟨replies, hr, rfl⟩ := h
  exact ⟨_, hr.answer _, rfl⟩

theorem halt (h : Echoes n shown c d) (ticket : Ticket) (e : StoreError) :
    Echoes n shown (c.halt ticket e) (d.halt ticket e) := by
  obtain ⟨replies, hr, rfl⟩ := h
  exact ⟨_, hr.answer _, rfl⟩

/-- the gauges are set from the tracker, whatever they showed -/
theorem updateGauges (h : Echoes n shown c d) : Echoes n id c.updateGauges d.updateGauges := by
  obtain ⟨replies, hr, rfl⟩ := h
  exact ⟨_, hr, rfl⟩

/-! ### Work -/

theorem submit (h : Echoes n shown c d) (x : Descriptor) :
    Echoes n shown (c.submit x).1 (d.submit x).1 ∧ (c.submit x).2 = (d.submit x).2 := by
  have hgroup : c.group? x.key = d.group? x.key := by
    obtain ⟨replies, -, rfl⟩ := h
    rfl
  have hrequested : c.requested = d.requested := by
    obtain ⟨replies, -, rfl⟩ := h
    rfl
  unfold Controller.submit
  rw [hgroup, hrequested]
  split_ifs
  · exact ⟨h, rfl⟩
  · exact ⟨h, rfl⟩
  · obtain ⟨replies, hr, rfl⟩ := h
    exact ⟨⟨_, hr, rfl⟩, rfl⟩

theorem extend (h : Echoes n shown c d) (existing : Record) (a : Addition) :
    Echoes n shown (c.extend existing a).1 (d.extend existing a).1 ∧
      (c.extend existing a).2 = (d.extend existing a).2 := by
  obtain ⟨replies, hr, rfl⟩ := h
  rw [extend_eq, extend_eq]
  exact ⟨⟨_, hr.answer _, rfl⟩, rfl⟩

theorem complete (h : Echoes n shown c d) (k : Key) (r : Registrant) :
    Echoes n shown (c.complete k r).1 (d.complete k r).1 ∧ (c.complete k r).2 = (d.complete k r).2 := by
  have hrecorded : Echoes n shown (c.recorded k r) (d.recorded k r) := by
    obtain ⟨replies, hr, rfl⟩ := h
    exact ⟨_, hr.answer _, rfl⟩
  cases ha : d.deferred.get? r.objective.id with
  | none =>
    rw [complete_of_none ha, complete_of_none (h.deferred ▸ ha)]
    exact ⟨hrecorded, rfl⟩
  | some a =>
    rw [complete_of_some ha, complete_of_some (h.deferred ▸ ha), h.deferred]
    exact (hrecorded.with_deferred _).extend r.record a

theorem completeAll (h : Echoes n shown c d) (k : Key) (rs : List Registrant) :
    Echoes n shown (c.completeAll k rs).1 (d.completeAll k rs).1 ∧
      (c.completeAll k rs).2 = (d.completeAll k rs).2 := by
  induction rs generalizing c d with
  | nil => exact ⟨h, rfl⟩
  | cons r rs ih =>
    obtain ⟨hone, hwork⟩ := h.complete k r
    obtain ⟨hall, hrest⟩ := ih hone
    exact ⟨hall, by simp only [Controller.completeAll, hwork, hrest]⟩

theorem confirm (h : Echoes n shown c d) (k : Key) :
    Echoes n shown (c.confirm k).1 (d.confirm k).1 ∧ (c.confirm k).2 = (d.confirm k).2 := by
  cases hg : d.tracker.groups.get? k with
  | some ids =>
    rw [confirm_of_awaited hg, confirm_of_awaited (h.tracker ▸ hg), h.tracker]
    exact ⟨(h.release k).with_tracker _, rfl⟩
  | none =>
    cases ho : d.tracker.objectives.get? k with
    | some rs =>
      rw [confirm_of_registered hg ho, confirm_of_registered (h.tracker ▸ hg) (h.tracker ▸ ho), h.tracker]
      exact ((h.release k).with_tracker _).completeAll k rs.list
    | none =>
      rw [confirm_of_unknown hg ho, confirm_of_unknown (h.tracker ▸ hg) (h.tracker ▸ ho)]
      exact ⟨h.release k, rfl⟩

theorem process (h : Echoes n shown c d) (w : Work) :
    Echoes n shown (c.process w).1 (d.process w).1 ∧ (c.process w).2 = (d.process w).2 := by
  cases w with
  | create x => exact h.submit x
  | element e =>
    simp only [Controller.process, act]
    split_ifs
    · obtain ⟨replies, hr, rfl⟩ := h
      exact ⟨⟨_, hr, rfl⟩, rfl⟩
    · exact h.submit e.descriptor
  | resolve k => exact h.confirm k

/-- **Work looks at neither the answers nor the gauges**, and at its end the gauges of both are set alike. -/
theorem drain (h : Echoes n shown c d) (ws : List Work) : Echoes n id (c.drain ws) (d.drain ws) := by
  induction d, ws using Controller.drain.induct generalizing c with
  | case1 d =>
    rw [Controller.drain, Controller.drain]
    exact h.updateGauges
  | case2 d w ws ih =>
    obtain ⟨hone, hwork⟩ := h.process w
    rw [Controller.drain, Controller.drain, hwork]
    exact ih hone

/-! ### Giving up -/

theorem abandonOne (h : Echoes n shown c d) (r : Registrant) :
    Echoes n shown (c.abandonOne r) (d.abandonOne r) := by
  have hfailed : Echoes n shown (c.failed r) (d.failed r) := by
    obtain ⟨replies, hr, rfl⟩ := h
    exact ⟨_, hr.answer _, rfl⟩
  cases ha : d.deferred.get? r.objective.id with
  | none =>
    rw [abandonOne_of_none ha, abandonOne_of_none (h.deferred ▸ ha)]
    exact hfailed
  | some a =>
    rw [abandonOne_of_some ha, abandonOne_of_some (h.deferred ▸ ha), h.deferred]
    exact (hfailed.with_deferred _).reply _ _

theorem abandon (h : Echoes n shown c d) (rs : List Registrant) : Echoes n shown (c.abandon rs) (d.abandon rs) := by
  induction rs generalizing c d with
  | nil => exact h
  | cons r rs ih => exact ih (h.abandonOne r)

theorem expire (h : Echoes n shown c d) (now : Nat) : Echoes n id (c.expire now) (d.expire now) := by
  rw [expire_eq, expire_eq, h.tracker]
  exact ((h.with_tracker _).abandon _).updateGauges

/-! ### Handlers -/

theorem withdraw (h : Echoes n shown c d) (objective : UInt32) :
    Echoes n shown (c.withdraw objective) (d.withdraw objective) := by
  unfold Controller.withdraw
  rw [h.deferred]
  split
  · exact (h.with_deferred _).reply _ _
  · exact h

theorem giveUp (h : Echoes n id c d) (objective : UInt32) : Echoes n id (c.giveUp objective) (d.giveUp objective) := by
  unfold Controller.giveUp
  rw [h.tracker]
  split_ifs
  · exact h.with_tracker _
  · exact ((h.with_tracker _).abandon _).updateGauges

theorem deleteStored (h : Echoes n shown c d) (ticket : Ticket) (o : Objective) :
    Echoes n shown (c.deleteStored ticket o) (d.deleteStored ticket o) := by
  unfold Controller.deleteStored
  rw [h.store]
  split
  · exact h.halt _ _
  · exact h.reply _ _
  · rw [foldl_removeGroup, foldl_removeGroup]
    obtain ⟨replies, hr, rfl⟩ := h
    exact ⟨_, hr.answer _, rfl⟩

theorem addBucket (h : Echoes n id c d) (a : Addition) : Echoes n id (c.addBucket a) (d.addBucket a) := by
  unfold Controller.addBucket
  rw [h.store, h.tracker, h.deferred]
  split
  · exact h.halt _ _
  · rename_i existing _
    obtain ⟨hone, hwork⟩ := h.extend existing a
    simp only [hwork]
    exact hone.drain _
  · split_ifs
    · exact h.reply _ _
    · obtain ⟨replies, hr, rfl⟩ := h
      exact ⟨_, hr, rfl⟩
    · exact h.reply _ _

theorem findChain? (h : Echoes n shown c d) (port : PortNumber) (chains : List (List Key)) :
    c.findChain? port chains = d.findChain? port chains := by
  obtain ⟨replies, -, rfl⟩ := h
  induction chains with
  | nil => rfl
  | cons chain chains ih =>
    rw [Controller.findChain?, Controller.findChain?, ih]
    rfl

theorem removeBucket (h : Echoes n shown c d) (ticket : Ticket) (o : Objective) (port : PortNumber) :
    Echoes n shown (c.removeBucket ticket o port) (d.removeBucket ticket o port) := by
  have hfind := h.findChain? port
  unfold Controller.removeBucket
  rw [h.store]
  split
  · exact h.halt _ _
  · exact h.reply _ _
  · rename_i existing _
    rw [hfind]
    split
    · exact h.reply _ _
    · split
      · exact h.reply _ _
      · obtain ⟨replies, hr, rfl⟩ := h
        exact ⟨_, hr.answer _, rfl⟩

/-- **Whatever comes, both react alike.** -/
theorem respond (h : Echoes n id c d) (s : Stimulus) : Echoes n id (c.respond s) (d.respond s) := by
  cases s with
  | request now r =>
    cases r with
    | install ticket o p =>
      simp only [Controller.respond, handle, install, registerElements_eq, h.tracker]
      exact (h.with_tracker _).drain _
    | addBucket a => exact h.addBucket a
    | removeBucket ticket o port => exact h.removeBucket ticket o port
    | remove ticket o => exact ((h.withdraw o.id).giveUp o.id).deleteStored ticket o
  | event e =>
    obtain ⟨kind, k⟩ := e
    cases kind with
    | added => exact h.drain _
    | removed => exact h.release k
    | error => exact h
  | sweep =>
    have hfound : (c.tracker.pendingKeys.filter fun k => (c.group? k).isSome) =
        d.tracker.pendingKeys.filter fun k => (d.group? k).isSome := by
      obtain ⟨replies, -, rfl⟩ := h
      rfl
    simp only [Controller.respond, Controller.sweep, hfound]
    split_ifs
    · exact h
    · exact h.drain _
  | expire now => exact h.expire now

theorem switch (h : Echoes n shown c d) (m : SwitchMove) :
    Echoes n shown { c with switch := c.switch.move m } { d with switch := d.switch.move m } := by
  obtain ⟨replies, hr, rfl⟩ := h
  exact ⟨_, hr, rfl⟩

end Echoes

end Controller

end FlowGroups
