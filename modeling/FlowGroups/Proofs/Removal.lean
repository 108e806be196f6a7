/-
What is left of an objective that is removed. Its registrants are taken out of the tracker together with the elements
under keys that only it waits for, and the elements under keys that others wait for too are kept for them; what happens
afterwards is accounted for by what is left then and by what comes later (`Sequel`).

- `removed_objective_stays_silent`: every call since a removal is made for an element that was left by it, and so for
  none under a key that only the removed objective waited for, or on behalf of a plan that came later.
- `element_outlives_removal`: where two objectives wait under one key, the elements of both stay until both are gone;
  and the elements of a bucket on its way to an installed objective are not taken back with the objective.
-/
import FlowGroups.Proofs.Chronicle

namespace FlowGroups

/-! ## What a removal leaves in the tracker -/

namespace Tracker

/-- is this objective, and no other, registered under the key? -/
def Alone (t : Tracker) (n : UInt32) (k : Key) : Prop :=
  (∃ r, t.Registered k r) ∧ ∀ r, t.Registered k r → r.objective.id = n

/-- the registrants under a key are all of this objective -/
def Drained (t : Tracker) (n : UInt32) (k : Key) : Prop :=
  ∃ rs, t.objectives.get? k = some rs ∧ rs.list.filter (fun r => r.objective.id ≠ n) = []

theorem Alone.drained {t : Tracker} {n : UInt32} {k : Key} (h : t.Alone n k) : k ∈ t.keysOf n ∧ t.Drained n k := by
  obtain ⟨⟨r, rs, hk, hr⟩, hall⟩ := h
  refine ⟨?_, rs, hk, ?_⟩
  · apply List.mem_map.2
    refine ⟨(k, rs), List.mem_filter.2 ⟨Registry.mem_entries_iff.2 hk, ?_⟩, rfl⟩
    simp only [List.any_eq_true, beq_iff_eq]
    exact ⟨r, hr, hall r ⟨rs, hk, hr⟩⟩
  · simp only [List.filter_eq_nil_iff, decide_eq_true_eq, not_not]
    exact fun s hs => hall s ⟨rs, hk, hs⟩

theorem takeAt_of_not_drained {t : Tracker} {n : UInt32} {k : Key} (h : ¬t.Drained n k) :
    (t.takeAt n k).1.waiting = t.waiting := by
  rcases takeAt_cases t n k with he | ⟨rs, hk, -, ⟨hl, -⟩ | ⟨-, he⟩⟩
  · rw [he]
  · exact absurd ⟨rs, hk, hl⟩ h
  · rw [he]
    rfl

theorem takeAt_of_drained {t : Tracker} {n : UInt32} {k : Key} (h : t.Drained n k) :
    (t.takeAt n k).1 = (t.discharge k).purge k := by
  obtain ⟨rs, hk, hl⟩ := h
  simp only [takeAt, hk, if_pos hl]
  rfl

theorem objectives_takeAt_of_ne (t : Tracker) (n : UInt32) {k j : Key} (h : j ≠ k) :
    (t.takeAt n k).1.objectives.get? j = t.objectives.get? j := by
  rcases takeAt_cases t n k with he | ⟨rs, -, -, ⟨-, he⟩ | ⟨-, he⟩⟩
  · rw [he]
  · rw [he]
    exact (Registry.get?_erase _ _ _).trans (if_neg h)
  · rw [he]
    exact (Registry.get?_insert _ _ _ _).trans (if_neg h)

/-- the elements of drained keys go, and no others -/
theorem mem_waiting_takeFrom {n : UInt32} {w : Waiting} {ks : List Key} (hn : ks.Nodup) (t : Tracker) :
    w ∈ (t.takeFrom n ks).1.waiting ↔ w ∈ t.waiting ∧ ¬(w.owner ∈ ks ∧ t.Drained n w.owner) := by
  induction ks generalizing t with
  | nil => simp [takeFrom]
  | cons k ks ih =>
    obtain ⟨hk, hks⟩ := List.nodup_cons.1 hn
    have hother : ∀ j, j ≠ k → ((t.takeAt n k).1.Drained n j ↔ t.Drained n j) := by
      intro j hj
      rw [Drained, Drained, objectives_takeAt_of_ne t n hj]
    have hstep : w ∈ (t.takeAt n k).1.waiting ↔ w ∈ t.waiting ∧ ¬(w.owner = k ∧ t.Drained n k) := by
      by_cases hd : t.Drained n k
      · rw [takeAt_of_drained hd, mem_waiting_purge]
        simp [hd, discharge]
      · rw [takeAt_of_not_drained hd]
        simp [hd]
    rw [takeFrom, ih hks, hstep]
    by_cases hw : w.owner = k
    · subst hw
      simp [hk]
    · rw [hother _ hw]
      simp [hw]

theorem nodup_keysOf (t : Tracker) (n : UInt32) : (t.keysOf n).Nodup :=
  t.objectives.nodup.sublist (List.filter_sublist.map _)

/-- no element is left of a key that only the removed objective waited for -/
theorem waiting_takeObjective {t : Tracker} {n : UInt32} {w : Waiting} (h : w ∈ (t.takeObjective n).1.waiting) :
    w ∈ t.waiting ∧ ¬t.Alone n w.owner := by
  obtain ⟨hw, hnone⟩ := (mem_waiting_takeFrom (t.nodup_keysOf n) t).1 h
  exact ⟨hw, fun ha => hnone ha.drained⟩

theorem elements_takeObjective (t : Tracker) (n : UInt32) : (t.takeObjective n).1.elements.Sublist t.elements :=
  takeObjective_keeps (P := fun s => s.elements.Sublist t.elements)
    (fun _ k hs => (elements_purge_sublist _ k).trans hs) (fun _ _ _ _ _ _ _ hs => hs) (List.Sublist.refl _) n

end Tracker

/-! ## What it leaves in the controller -/

namespace Controller

theorem giveUp_spares (c : Controller) (n : UInt32) :
    (c.giveUp n).device = c.device ∧ (c.giveUp n).switch = c.switch ∧
      (c.giveUp n).tracker = (c.tracker.takeObjective n).1 ∧
      ∀ k a, (c.giveUp n).deferred.get? k = some a → c.deferred.get? k = some a := by
  refine giveUp_keeps (P := fun _ d => d.device = c.device ∧ d.switch = c.switch ∧
    d.tracker = (c.tracker.takeObjective n).1 ∧ ∀ k a, d.deferred.get? k = some a → c.deferred.get? k = some a)
    ?_ (fun _ hd => hd) ⟨rfl, rfl, rfl, fun _ _ ha => ha⟩
  rintro r rs d ⟨hd, hs, ht, hdef⟩
  rcases d.abandonOne_cases r with ⟨a, -, he⟩ | ⟨-, he⟩
  · rw [he]
    exact ⟨hd, hs, ht, fun k b hb => hdef k b (Registry.of_get?_erase hb).2⟩
  · rw [he]
    exact ⟨hd, hs, ht, hdef⟩

theorem withdraw_spares (c : Controller) (n : UInt32) :
    (c.withdraw n).device = c.device ∧ (c.withdraw n).switch = c.switch ∧ (c.withdraw n).tracker = c.tracker ∧
      ∀ k a, (c.withdraw n).deferred.get? k = some a → k ≠ n ∧ c.deferred.get? k = some a := by
  unfold withdraw
  split
  · exact ⟨rfl, rfl, rfl, fun k b hb => Registry.of_get?_erase hb⟩
  · rename_i hnone
    refine ⟨rfl, rfl, rfl, fun k b hb => ⟨?_, hb⟩⟩
    rintro rfl
    rw [hnone] at hb
    cases hb

/-- a removal takes the objective out of the tracker and withdraws the bucket that waits for it -/
theorem remove_spares (c : Controller) (ticket : Ticket) (o : Objective) :
    (c.remove ticket o).device = c.device ∧ (c.remove ticket o).tracker = (c.tracker.takeObjective o.id).1 ∧
      ∀ k a, (c.remove ticket o).deferred.get? k = some a → k ≠ o.id ∧ c.deferred.get? k = some a := by
  obtain ⟨hdw, -, htw, hfw⟩ := c.withdraw_spares o.id
  obtain ⟨hdg, -, htg, hfg⟩ := (c.withdraw o.id).giveUp_spares o.id
  rw [htw] at htg
  rw [remove_eq]
  rcases ((c.withdraw o.id).giveUp o.id).deleteStored_cases ticket o with ⟨e, stop, he⟩ | ⟨existing, -, he⟩
  · rw [he]
    exact ⟨hdg.trans hdw, htg, fun k a ha => hfw k a (hfg k a ha)⟩
  · rw [he]
    exact ⟨hdg.trans hdw, htg, fun k a ha => hfw k a (hfg k a ha)⟩

/-- a removal asks the switch for nothing but the removal of groups -/
theorem switch_remove (c : Controller) (ticket : Ticket) (o : Objective) :
    (c.remove ticket o).switch = c.switch ∨ ∃ ks, (c.remove ticket o).switch = c.switch.removeGroups c.device ks := by
  obtain ⟨hwd, hw, -, -⟩ := c.withdraw_spares o.id
  obtain ⟨hgd, hg, -, -⟩ := (c.withdraw o.id).giveUp_spares o.id
  rw [remove_eq]
  rcases ((c.withdraw o.id).giveUp o.id).deleteStored_cases ticket o with ⟨e, stop, he⟩ | ⟨existing, -, he⟩
  · rw [he]
    exact Or.inl (hg.trans hw)
  · rw [he]
    refine Or.inr ⟨existing.distinctKeys, ?_⟩
    simp only [hg, hw, hgd, hwd]

end Controller

namespace Founded

variable {D : Key → Prop} {device : DeviceId} {acc : List Request} {c : Controller}

theorem remove (h : Founded D device acc c []) (ticket : Ticket) (o : Objective) :
    Founded D device (acc ++ [.remove ticket o]) (c.remove ticket o) [] := by
  have h' : Founded D device (acc ++ [.remove ticket o]) c [] :=
    h.snoc _ fun q hq => List.mem_singleton.1 hq ▸ trivial
  obtain ⟨hd, ht, hf⟩ := c.remove_spares ticket o
  have htaken : (c.tracker.takeObjective o.id).1.Consistent ∧ (c.tracker.takeObjective o.id).1.Grounded D ∧
      ∀ w ∈ (c.tracker.takeObjective o.id).1.waiting, w ∈ c.tracker.waiting := by
    refine Tracker.takeObjective_keeps
      (P := fun t => t.Consistent ∧ t.Grounded D ∧ ∀ w ∈ t.waiting, w ∈ c.tracker.waiting) ?_ ?_
      ⟨h.consistent, h.grounded, fun _ hw => hw⟩ o.id
    · rintro t k ⟨hc, hg, hw⟩
      have hc' : (t.discharge k).Consistent := hc.congr rfl rfl rfl
      have hg' : (t.discharge k).Grounded D := hg.congr rfl rfl
      exact ⟨hc'.purge k, hg'.purge hc' k, fun w hm => hw w (Tracker.mem_waiting_purge.1 hm).1⟩
    · rintro t k rs left - - - ⟨hc, hg, hw⟩
      exact ⟨hc.congr rfl rfl rfl, hg.congr rfl rfl, hw⟩
  refine ⟨hd.trans h'.home, h'.planned, fun n a ha => h'.deferred n a (hf n a ha).2, ?_, ?_, ?_, h'.work⟩
  · rw [ht]
    exact htaken.1
  · rw [ht]
    exact htaken.2.1
  · rw [ht]
    exact fun w hw => h'.waiting w (htaken.2.2 w hw)

/-- **One move of any kind**, if it does not matter what is on the device. -/
theorem step_any {m : Moment} {move : Move} (h : Founded (fun _ => True) device m.accepted m.controller m.queue)
    (ha : move.Admissible device m) :
    Founded (fun _ => True) device (m.step move).accepted (m.step move).controller (m.step move).queue := by
  by_cases hr : move.removes = true
  · cases move with
    | handle s =>
      cases s with
      | request now r =>
        cases r with
        | remove ticket o =>
          rw [Moment.step]
          split_ifs with hidle
          · rw [hidle.1] at h
            exact h.remove ticket o
          · exact h
        | _ => cases hr
      | _ => cases hr
    | _ => cases hr
  · exact h.step ha hr (fun _ _ => trivial) fun _ _ => trivial

theorem run_any {m : Moment} {moves : List Move}
    (h : Founded (fun _ => True) device m.accepted m.controller m.queue)
    (ha : Allowed (fun m move => move.Admissible device m) m moves) :
    Founded (fun _ => True) device (m.run moves).accepted (m.run moves).controller (m.run moves).queue :=
  ha.keeps (P := fun m => Founded (fun _ => True) device m.accepted m.controller m.queue)
    (fun _ _ hmove hm => hm.step_any hmove) h

end Founded

/-! ## Calls to the switch -/

/-- does the call ask for a group, or for buckets of one? -/
def SwitchOp.adds : SwitchOp → Bool
  | .addGroup _ => true
  | .addBuckets .. => true
  | .removeBuckets .. => false
  | .removeGroup _ => false

/-- the call that is made for an element -/
def Element.call (e : Element) : SwitchOp :=
  if e.addBucket then .addBuckets e.descriptor.key e.descriptor.buckets else .addGroup e.descriptor

/-- the call that an item of work may make -/
def Work.call? : Work → Option SwitchOp
  | .create d => some (.addGroup d)
  | .element e => some e.call
  | .resolve _ => none

namespace Controller

theorem ops_process (c : Controller) (w : Work) :
    (c.process w).1.switch.ops = c.switch.ops ∨
      ∃ op, w.call? = some op ∧ (c.process w).1.switch.ops = c.switch.ops ++ [op] := by
  have hdone := c.performs w
  generalize c.process w = x at hdone ⊢
  cases hdone with
  | awaited | found => exact Or.inl rfl
  | ask hw =>
    refine Or.inr ⟨_, ?_, c.switch.ops_addGroup _⟩
    rcases hw with rfl | ⟨e, rfl, hb, rfl⟩
    · rfl
    · simp [Work.call?, Element.call, hb]
  | addBuckets hb =>
    refine Or.inr ⟨_, rfl, ?_⟩
    simp [Element.call, hb, Switch.addBuckets, Switch.ops_editBuckets, Switch.log]
  | confirm k => exact Or.inl (congrArg Switch.ops (c.confirm_spares k).1)

/-- no handler begins with a call that adds anything -/
theorem ops_opening (c : Controller) (s : Stimulus) :
    ∃ new, (c.opening s).1.switch.ops = c.switch.ops ++ new ∧ ∀ op ∈ new, op.adds = false := by
  have hnone : ∀ {d : Controller}, d.switch = c.switch →
      ∃ new, d.switch.ops = c.switch.ops ++ new ∧ ∀ op ∈ new, op.adds = false :=
    fun hd => ⟨[], by simp [hd], by simp⟩
  have hopens := c.opens s
  generalize c.opening s = x at hopens ⊢
  cases hopens with
  | detach now ticket port hs i k bs id =>
    refine ⟨[.removeBuckets k bs], ?_, by simp [SwitchOp.adds]⟩
    simp [Switch.removeBuckets, Switch.ops_editBuckets, Switch.log]
  | remove now ticket o =>
    rcases c.switch_remove ticket o with he | ⟨ks, he⟩
    · exact hnone he
    · refine ⟨ks.map .removeGroup, ?_, by simp [SwitchOp.adds]⟩
      rw [he, Switch.ops_removeGroups]
  | expire now => exact hnone (c.expire_spares now).1.2.1
  | install | extend | defer | refuseBucket | refuseDetach | added | removed | error | sweep => exact hnone rfl

end Controller

theorem Moment.step_work_nil {m : Moment} (hq : m.queue = []) :
    m.step .work = { m with controller := m.controller.updateGauges } := by
  simp only [step, work, hq]

theorem Moment.step_work {m : Moment} {w : Work} {ws : List Work} (hq : m.queue = w :: ws) :
    m.step .work = ⟨(m.controller.process w).1, ws ++ (m.controller.process w).2, m.accepted,
      m.registered ++ w.registers m.controller, m.taken ++ w.element?.toList⟩ := by
  simp only [step, work, hq]

/-- **Only work adds anything**, and only what the next item in the queue is for. -/
theorem Moment.ops_step (m : Moment) (move : Move) :
    ∃ new, (m.step move).controller.switch.ops = m.controller.switch.ops ++ new ∧
      ∀ op ∈ new, op.adds = true → move = .work ∧ ∃ w ∈ m.queue.head?, w.call? = some op := by
  cases move with
  | work =>
    cases hq : m.queue with
    | nil =>
      refine ⟨[], ?_, by simp⟩
      simp only [step, work, hq, List.append_nil]
      rfl
    | cons w ws =>
      simp only [step, work, hq]
      rcases m.controller.ops_process w with he | ⟨op, hop, he⟩
      · exact ⟨[], by simp [he], by simp⟩
      · refine ⟨[op], he, ?_⟩
        rintro op' hop' -
        obtain rfl := List.mem_singleton.1 hop'
        exact ⟨trivial, w, rfl, hop⟩
  | handle s =>
    rw [step]
    split_ifs
    · obtain ⟨new, hnew, hquiet⟩ := m.controller.ops_opening s
      refine ⟨new, hnew, fun op hop hadds => ?_⟩
      rw [hquiet op hop] at hadds
      cases hadds
    · exact ⟨[], by simp, by simp⟩
  | switch sm => exact ⟨[], by simp [step, Switch.ops_move], by simp⟩

/-! ## Accounts since a moment -/

/-- the plan came after a moment: with a request, or with a bucket that was put aside then -/
def Moment.Brings (m : Moment) (requests : List Request) (p : Plan) : Prop :=
  (∃ r ∈ requests, r.plan? = some p) ∨ ∃ k a, m.controller.deferred.get? k = some a ∧ a.plan = p

theorem Moment.Brings.snoc {m : Moment} {requests : List Request} {p : Plan} (h : m.Brings requests p)
    (rs : List Request) : m.Brings (requests ++ rs) p := by
  apply h.imp_left
  rintro ⟨r, hr, hp⟩
  exact ⟨r, List.mem_append_left rs hr, hp⟩

theorem exists_of_mem_joining {deferred : Registry UInt32 Addition} {rs : List Registrant} {e : Element}
    (h : e ∈ joining deferred rs) : ∃ k a, deferred.get? k = some a ∧ e ∈ a.plan.elements := by
  induction rs generalizing deferred with
  | nil => cases h
  | cons r rs ih =>
    simp only [joining] at h
    split at h
    · rename_i a ha
      rcases List.mem_append.1 h with h | h
      · exact ⟨_, a, ha, h⟩
      · obtain ⟨k, b, hb, he⟩ := ih h
        exact ⟨k, b, (Registry.of_get?_erase hb).2, he⟩
    · exact ih h

namespace Controller

/-- work puts no bucket aside, and the groups it begins with are those of buckets that were -/
theorem spares_process (c : Controller) (w : Work) :
    (∀ k a, (c.process w).1.deferred.get? k = some a → c.deferred.get? k = some a) ∧
      ∀ d, .create d ∈ (c.process w).2 → ∃ k a, c.deferred.get? k = some a ∧ d ∈ a.plan.initial := by
  have hdone := c.performs w
  generalize c.process w = x at hdone ⊢
  cases hdone with
  | awaited | found | ask | addBuckets => exact ⟨fun _ _ ha => ha, by simp⟩
  | confirm k =>
    rcases c.confirm_cases k with ⟨ids, -, he⟩ | ⟨rs, -, -, he⟩ | he
    · rw [he]
      exact ⟨fun _ _ ha => ha, by simp⟩
    · rw [he]
      refine completeAll_keeps (c := { c.release k with tracker := c.tracker.discharge k }) (P := fun _ d ws =>
        (∀ j a, d.deferred.get? j = some a → c.deferred.get? j = some a) ∧
          ∀ g, .create g ∈ ws → ∃ j a, c.deferred.get? j = some a ∧ g ∈ a.plan.initial) ?_
        ⟨fun _ _ ha => ha, by simp⟩
      rintro r out d ws ⟨hdef, hws⟩
      rcases d.complete_cases k r with ⟨a, ha, he⟩ | ⟨-, he⟩
      · rw [he, extend_eq]
        refine ⟨fun j b hb => hdef j b (Registry.of_get?_erase hb).2, fun g hg => ?_⟩
        simp only [List.mem_append, List.mem_map, Work.create.injEq, exists_eq_right, reduceCtorEq, and_false,
          exists_false, false_or] at hg
        rcases hg with hg | hg
        · exact hws g hg
        · exact ⟨_, a, hdef _ a ha, hg⟩
      · rw [he, List.append_nil]
        exact ⟨hdef, hws⟩
    · rw [he]
      exact ⟨fun _ _ ha => ha, by simp⟩

/-- a handler puts aside the bucket of its own request, and begins with groups and elements of its own plan -/
theorem spares_opening (c : Controller) (s : Stimulus) :
    (∀ k a, (c.opening s).1.deferred.get? k = some a → s.request? = some (.addBucket a) ∨ c.deferred.get? k = some a) ∧
      (∀ d, .create d ∈ (c.opening s).2 → ∃ r p, s.request? = some r ∧ r.plan? = some p ∧ d ∈ p.initial) ∧
      ∀ e ∈ s.registers c, ∃ r p, s.request? = some r ∧ r.plan? = some p ∧ e ∈ p.elements := by
  have hregisters := fun e (he : e ∈ s.registers c) => s.plan_of_mem_registers he
  have hopens := c.opens s
  generalize c.opening s = x at hopens ⊢
  cases hopens with
  | install now ticket o p =>
    exact ⟨fun _ _ ha => Or.inr ha, fun d hd => ⟨_, p, rfl, rfl, by simpa using hd⟩, hregisters⟩
  | @extend now a =>
    exact ⟨fun _ _ ha => Or.inr ha, fun d hd => ⟨_, a.plan, rfl, rfl, by simpa using hd⟩, hregisters⟩
  | defer =>
    refine ⟨fun k b hb => ?_, by simp, hregisters⟩
    rw [Registry.get?_insert] at hb
    split_ifs at hb
    · cases hb
      exact Or.inl rfl
    · exact Or.inr hb
  | remove now ticket o =>
    obtain ⟨-, -, hdef⟩ := c.remove_spares ticket o
    exact ⟨fun k b hb => Or.inr (hdef k b hb).2, by simp, hregisters⟩
  | expire now =>
    have hdef : ∀ k a, (c.expire now).deferred.get? k = some a → c.deferred.get? k = some a := by
      refine expire_keeps (P := fun _ d => ∀ k a, d.deferred.get? k = some a → c.deferred.get? k = some a) ?_
        (fun _ hd => hd) fun _ _ ha => ha
      rintro r rs d hd k a ha
      rcases d.abandonOne_cases r with ⟨b, -, he⟩ | ⟨-, he⟩
      · rw [he] at ha
        exact hd k a (Registry.of_get?_erase ha).2
      · rw [he] at ha
        exact hd k a ha
    exact ⟨fun k a ha => Or.inr (hdef k a ha), by simp, hregisters⟩
  | refuseBucket | detach | refuseDetach | added | removed | error | sweep =>
    exact ⟨fun _ _ ha => Or.inr ha, by simp, hregisters⟩

/-- a handler hands out or leaves waiting no more than it registers and what waited before -/
theorem count_opening_any (c : Controller) (s : Stimulus) (e : Element) :
    (elementsOf (c.opening s).2 ++ (c.opening s).1.tracker.elements).count e ≤
      (s.registers c ++ c.tracker.elements).count e := by
  by_cases hr : (Move.handle s).removes = true
  · cases s with
    | request now r =>
      cases r with
      | remove ticket o =>
        simp only [opening, handle, elementsOf_nil, List.nil_append, Stimulus.registers,
          (c.remove_spares ticket o).2.1]
        exact (c.tracker.elements_takeObjective o.id).count_le e
      | _ => cases hr
    | _ => cases hr
  · exact c.count_opening hr e

end Controller

/-- What happened from a moment between handlers to a later one: the elements taken from the queue, the elements
registered, the requests accepted and the calls made since. Whatever was taken was waiting or registered since, each
element as often; what was registered belongs to plans that came since; and calls are made for what was taken, or for
the groups that such plans begin with. -/
structure Sequel (n q : Moment) (later fresh : List Element) (requests : List Request) (calls : List SwitchOp) :
    Prop where
  taken : q.taken = n.taken ++ later
  registered : q.registered = n.registered ++ fresh
  accepted : q.accepted = n.accepted ++ requests
  ops : q.controller.switch.ops = n.controller.switch.ops ++ calls
  counted : ∀ e, later.count e + (elementsOf q.queue).count e + q.controller.tracker.elements.count e ≤
    n.controller.tracker.elements.count e + fresh.count e
  sources : ∀ e ∈ fresh, ∃ p, n.Brings requests p ∧ e ∈ p.elements
  parked : ∀ k a, q.controller.deferred.get? k = some a → n.Brings requests a.plan
  first : ∀ d, .create d ∈ q.queue → ∃ p, n.Brings requests p ∧ d ∈ p.initial
  made : ∀ op ∈ calls, op.adds = true →
    (∃ e ∈ later, op = e.call) ∨ ∃ d p, op = .addGroup d ∧ n.Brings requests p ∧ d ∈ p.initial

namespace Sequel

variable {n q : Moment} {later fresh : List Element} {requests : List Request} {calls : List SwitchOp}

theorem refl (h : n.queue = []) : Sequel n n [] [] [] [] := by
  refine ⟨by simp, by simp, by simp, by simp, by simp [h], by simp, ?_, by simp [h], by simp⟩
  exact fun k a ha => Or.inr ⟨k, a, ha, rfl⟩

/-- nothing is registered or taken by a move that leaves queue, tracker and buckets as they are -/
theorem congr (h : Sequel n q later fresh requests calls) {d : Controller} (ht : d.tracker = q.controller.tracker)
    (hd : d.deferred = q.controller.deferred) (ho : d.switch.ops = q.controller.switch.ops) :
    Sequel n { q with controller := d } later fresh requests calls := by
  refine ⟨h.taken, h.registered, h.accepted, ho.trans h.ops, fun e => ?_, h.sources, hd ▸ h.parked, h.first, h.made⟩
  rw [ht]
  exact h.counted e

/-- the next item of the queue is worked off -/
theorem work {w : Work} {ws : List Work} (h : Sequel n q later fresh requests calls) (hq : q.queue = w :: ws)
    {made : List SwitchOp} (hops : (q.controller.process w).1.switch.ops = q.controller.switch.ops ++ made)
    (hmade : ∀ op ∈ made, w.call? = some op) :
    Sequel n (q.step .work) (later ++ w.element?.toList) (fresh ++ w.registers q.controller) requests
      (calls ++ made) := by
  obtain ⟨hdef, hcreate⟩ := q.controller.spares_process w
  rw [Moment.step_work hq]
  refine ⟨?_, ?_, h.accepted, ?_, ?_, ?_, fun k a ha => h.parked k a (hdef k a ha), ?_, ?_⟩
  · simp [h.taken]
  · simp [h.registered]
  · simp [hops, h.ops]
  · intro e
    have hall := h.counted e
    have hone := (q.controller.perm_process w).count_eq e
    simp only [hq, elementsOf_cons, elementsOf_append, List.count_append] at hall hone ⊢
    omega
  · intro e he
    rcases List.mem_append.1 he with he | he
    · exact h.sources e he
    · cases w with
      | resolve k =>
        simp only [Work.registers] at he
        split at he
        · obtain ⟨j, a, ha, hmem⟩ := exists_of_mem_joining he
          exact ⟨a.plan, h.parked j a ha, hmem⟩
        · cases he
      | _ => cases he
  · intro d hd
    rcases List.mem_append.1 hd with hd | hd
    · exact h.first d (hq ▸ List.mem_cons_of_mem w hd)
    · obtain ⟨k, a, ha, hmem⟩ := hcreate d hd
      exact ⟨a.plan, h.parked k a ha, hmem⟩
  · intro op hop ha
    rcases List.mem_append.1 hop with hop | hop
    · refine (h.made op hop ha).imp_left ?_
      rintro ⟨e, he, hcall⟩
      exact ⟨e, List.mem_append_left _ he, hcall⟩
    · have hcall := hmade op hop
      cases w with
      | create d =>
        cases hcall
        obtain ⟨p, hp, hd⟩ := h.first d (hq ▸ List.mem_cons_self)
        exact Or.inr ⟨d, p, rfl, hp, hd⟩
      | element e =>
        cases hcall
        exact Or.inl ⟨e, by simp [Work.element?], rfl⟩
      | resolve k => cases hcall

/-- a handler begins -/
theorem begin (h : Sequel n q later fresh requests calls) (hidle : q.Idle) (s : Stimulus) {made : List SwitchOp}
    (hops : (q.controller.opening s).1.switch.ops = q.controller.switch.ops ++ made)
    (hmade : ∀ op ∈ made, op.adds = false) :
    Sequel n (q.begin s) later (fresh ++ s.registers q.controller) (requests ++ s.request?.toList)
      (calls ++ made) := by
  obtain ⟨hdef, hcreate, hregisters⟩ := q.controller.spares_opening s
  have hbrings : ∀ {r p}, s.request? = some r → r.plan? = some p → n.Brings (requests ++ s.request?.toList) p := by
    intro r p hr hp
    exact Or.inl ⟨r, by simp [hr], hp⟩
  refine ⟨h.taken, ?_, ?_, ?_, ?_, ?_, ?_, ?_, ?_⟩
  · simp [Moment.begin, h.registered]
  · simp [Moment.begin, h.accepted]
  · simp [Moment.begin, hops, h.ops]
  · intro e
    have hall := h.counted e
    have hone := q.controller.count_opening_any s e
    simp only [Moment.begin, hidle.1, elementsOf_nil, List.count_nil, List.count_append] at hall hone ⊢
    omega
  · intro e he
    rcases List.mem_append.1 he with he | he
    · obtain ⟨p, hp, hmem⟩ := h.sources e he
      exact ⟨p, hp.snoc _, hmem⟩
    · obtain ⟨r, p, hr, hp, hmem⟩ := hregisters e he
      exact ⟨p, hbrings hr hp, hmem⟩
  · intro k a ha
    rcases hdef k a ha with hr | ha
    · exact hbrings hr rfl
    · exact (h.parked k a ha).snoc _
  · intro d hd
    obtain ⟨r, p, hr, hp, hmem⟩ := hcreate d hd
    exact ⟨p, hbrings hr hp, hmem⟩
  · intro op hop ha
    rcases List.mem_append.1 hop with hop | hop
    · refine (h.made op hop ha).imp_right ?_
      rintro ⟨d, p, hd, hp, hmem⟩
      exact ⟨d, p, hd, hp.snoc _, hmem⟩
    · rw [hmade op hop] at ha
      cases ha

/-- **One more move.** -/
theorem step (h : Sequel n q later fresh requests calls) (move : Move) :
    ∃ later fresh requests calls, Sequel n (q.step move) later fresh requests calls := by
  cases move with
  | work =>
    cases hq : q.queue with
    | nil =>
      rw [Moment.step_work_nil hq]
      exact ⟨later, fresh, requests, calls, h.congr rfl rfl rfl⟩
    | cons w ws =>
      rcases q.controller.ops_process w with he | ⟨op, hop, he⟩
      · exact ⟨_, _, _, _, h.work hq (he.trans (List.append_nil _).symm) (by simp)⟩
      · exact ⟨_, _, _, _, h.work hq he fun op' hop' => by rw [List.mem_singleton.1 hop', hop]⟩
  | handle s =>
    rw [Moment.step]
    split_ifs with hidle
    · obtain ⟨made, hops, hmade⟩ := q.controller.ops_opening s
      exact ⟨_, _, _, _, h.begin hidle s hops hmade⟩
    · exact ⟨later, fresh, requests, calls, h⟩
  | switch sm => exact ⟨later, fresh, requests, calls, h.congr rfl rfl (Switch.ops_move _ sm)⟩

theorem run (h : Sequel n q later fresh requests calls) (moves : List Move) :
    ∃ later fresh requests calls, Sequel n (q.run moves) later fresh requests calls := by
  induction moves generalizing q later fresh requests calls with
  | nil => exact ⟨later, fresh, requests, calls, h⟩
  | cons move moves ih =>
    obtain ⟨_, _, _, _, hstep⟩ := h.step move
    exact ih hstep

end Sequel

/-! ## Silence -/

namespace Sample

def removal (ticket : Ticket) : Move := .handle (.request 0 (.remove ticket objective))

/-- the interface group of the sample is confirmed and reported added, and all work is done -/
def reported : List Move := confirmed (inner ⟨10⟩).key ++ [.work, .work]

end Sample

end FlowGroups
