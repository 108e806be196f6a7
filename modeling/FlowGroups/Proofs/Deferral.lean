/-
A bucket that is put aside. It joins its objective in the middle of the handler that confirms the objective's top-level
group, and works on the record at hand; a bucket that is added afterwards finds the record in the store and has a
handler of its own. Both come to the same.

- `respond_added_of_deferred`: one bucket aside, and one registrant that is confirmed.
- `put_aside_eq_added_later`: the same at every moment of every run, where what is put aside and what is registered
  comes from requests.
-/
import FlowGroups.Proofs.Chronicle
import FlowGroups.Proofs.Echoes

namespace FlowGroups

namespace Controller

/-! ## One bucket aside -/

theorem respond_added (c : Controller) (k : Key) : c.respond (.event ⟨.added, k⟩) = c.drain [.resolve k] := rfl

/-- a bucket for an objective that is recorded is added to its record at once -/
theorem respond_addBucket {c : Controller} {a : Addition} {existing : Record}
    (h : c.store.get a.objective.id = .ok (some existing)) (now : Nat) :
    c.respond (.request now (.addBucket a)) = (c.extend existing a).1.drain (c.extend existing a).2 := by
  simp only [respond, handle, addBucket, h]

/-- a confirmed key that only one objective waits for completes this objective, and nothing else -/
theorem respond_added_of_alone {c : Controller} {k : Key} {rs : Registrants} {r : Registrant}
    (hg : c.tracker.groups.get? k = none) (ho : c.tracker.objectives.get? k = some rs) (hr : rs.list = [r]) :
    let d := { c.release k with tracker := c.tracker.discharge k }
    c.respond (.event ⟨.added, k⟩) = (d.complete k r).1.drain (d.complete k r).2 := by
  intro d
  have hconfirm : c.process (.resolve k) = d.complete k r := by
    rw [process, confirm_of_registered hg ho, hr]
    simp only [completeAll, List.append_nil]
    rfl
  rw [respond_added, drain, hconfirm, List.nil_append]

/-- One registrant is confirmed, and a bucket is aside for its objective. The record that the bucket is added to is the
one that is written just before, which is what the store gives back once the handler is over. -/
theorem respond_added_of_deferred {c : Controller} {k : Key} {rs : Registrants} {r : Registrant} {a : Addition}
    (hg : c.tracker.groups.get? k = none) (ho : c.tracker.objectives.get? k = some rs) (hr : rs.list = [r])
    (ha : c.deferred.get? r.objective.id = some a) (hown : a.objective.id = r.record.objective) (hfits : r.record.Fits)
    (now : Nat) :
    c.respond (.event ⟨.added, k⟩) =
      ({ c with deferred := c.deferred.erase r.objective.id }.respond (.event ⟨.added, k⟩)).respond
        (.request now (.addBucket a)) := by
  let d : Controller := { c.release k with tracker := c.tracker.discharge k }
  -- the objective is recorded and answered, and nothing is aside for it any more
  let e : Controller := { d.recorded k r with deferred := c.deferred.erase r.objective.id }
  have hnone : (c.deferred.erase r.objective.id).get? r.objective.id = none := by
    rw [Registry.get?_erase, if_pos rfl]
  have hstore : e.updateGauges.store.get a.objective.id = .ok (some r.record) := by
    have hput : e.updateGauges.store = d.store.put r.record := rfl
    rw [hput, Store.get_put hfits, if_pos hown]
  have haside : c.respond (.event ⟨.added, k⟩) = (e.extend r.record a).1.drain (e.extend r.record a).2 := by
    rw [respond_added_of_alone hg ho hr,
      complete_of_some (c := { c.release k with tracker := c.tracker.discharge k }) ha]
    rfl
  have hempty : { c with deferred := c.deferred.erase r.objective.id }.respond (.event ⟨.added, k⟩) =
      e.updateGauges := by
    rw [respond_added_of_alone (c := { c with deferred := c.deferred.erase r.objective.id }) hg ho hr,
      complete_of_none (c := { Controller.release { c with deferred := c.deferred.erase r.objective.id } k with
        tracker := c.tracker.discharge k }) hnone, drain]
    rfl
  -- all that the handler in between leaves is what the gauges show, and the next one sets them anew
  obtain ⟨hextended, hwork⟩ := (Echoes.of_withGauges e e.tracker.pendingGroups e.tracker.pendingObjectives).extend
    r.record a
  rw [haside, hempty, respond_addBucket hstore, updateGauges_eq, hwork]
  exact (hextended.drain _).eq.symm

end Controller

/-! ## Along a run -/

/-- the books say whose record a registrant brings, and that it can be read back -/
theorem Booked.record_of_registered {device : DeviceId} {base : List Reply} {initial : Store} {acc : List Request}
    {c : Controller} (h : Booked base initial acc [] c) (hp : ∀ q ∈ acc, q.Planned device) {k : Key} {r : Registrant}
    (hr : c.tracker.Registered k r) : r.record.objective = r.objective.id ∧ r.record.Fits := by
  obtain ⟨p, hmem, -, hrecord⟩ := h.registered k r hr
  rw [← hrecord]
  exact (hp _ hmem).record rfl

/-- **A bucket put aside is a bucket added later.** At every moment of every run where one objective alone waits under
its top-level key, no element waits for this key, and a bucket is aside for the objective: the handler of the event that
the group was added leaves the controller, its switch and its store included, exactly as that same handler does with
nothing aside, followed by the handler of a request to add the bucket. -/
theorem put_aside_eq_added_later {device : DeviceId} {delay : Nat} {switch : Switch} {store : Store}
    {metrics : Metrics} {moves : List Move}
    (h : Allowed (fun m move => move.Admissible device m) (.start device delay switch store metrics) moves) {k : Key}
    {rs : Registrants} {r : Registrant} {a : Addition} (now : Nat) :
    let c := ((Moment.start device delay switch store metrics).run moves).controller
    c.tracker.groups.get? k = none → c.tracker.objectives.get? k = some rs → rs.list = [r] →
      c.deferred.get? r.objective.id = some a →
      c.respond (.event ⟨.added, k⟩) =
        ({ c with deferred := c.deferred.erase r.objective.id }.respond (.event ⟨.added, k⟩)).respond
          (.request now (.addBucket a)) := by
  intro c hg ho hr ha
  obtain ⟨hbooked, -⟩ := booked_run h
  have hregistered : c.tracker.Registered k r := ⟨rs, ho, hr ▸ List.mem_singleton.2 rfl⟩
  obtain ⟨hid, hfits⟩ := hbooked.record_of_registered (Moment.planned_run h) hregistered
  have hown : a.objective.id = r.record.objective := (hbooked.deferred _ a ha).2.trans hid.symm
  exact Controller.respond_added_of_deferred hg ho hr ha hown hfits now

namespace Sample

/-- a bucket is put aside while the objective waits, and all groups are confirmed; the last event is on its way -/
def parked : List Move :=
  [.handle (.request 0 hashedRequest), .work, .handle (.request 0 (.addBucket (addition 1 ⟨20⟩)))] ++
    confirmed (inner ⟨10⟩).key ++ [.work, .work] ++ confirmed (outer ⟨10⟩).key ++
    [.work, .work, .switch (.confirm (Key.l3Ecmp 4))]

end Sample

/-- the bucket is put aside in the run of the sample, and joins when the last event arrives -/
theorem sample_joins_as_if_added_later :
    let m := Sample.start.run Sample.parked
    let c := m.controller
    (m.Idle ∧ c.replies = [] ∧ c.deferred.get? 4 = some (Sample.addition 1 ⟨20⟩)) ∧
      c.respond (.event ⟨.added, Key.l3Ecmp 4⟩) =
        ({ c with deferred := c.deferred.erase 4 }.respond (.event ⟨.added, Key.l3Ecmp 4⟩)).respond
          (.request 0 (.addBucket (Sample.addition 1 ⟨20⟩))) ∧
      (m.run [.handle (.event ⟨.added, Key.l3Ecmp 4⟩), .work]).controller.replies =
        [⟨0, .installed (GroupId.l3Ecmp 4)⟩, ⟨1, .installed (GroupId.l3Ecmp 4)⟩] := by
  have hinstall : Sample.hashedRequest.Planned Sample.device := ⟨0, rfl⟩
  have hadd : (Request.addBucket (Sample.addition 1 ⟨20⟩)).Planned Sample.device := ⟨0, rfl⟩
  have h : Allowed (fun m move => move.Admissible Sample.device m) Sample.start Sample.parked :=
    ⟨⟨hinstall, List.not_mem_nil⟩, trivial, ⟨hadd, by decide +kernel⟩, allowed_admissible (by decide +kernel) _⟩
  let r : Registrant := ⟨0, Sample.hashed ⟨10⟩, (Sample.hashedPlan ⟨10⟩).record, GroupId.l3Ecmp 4⟩
  have hg : (Sample.start.run Sample.parked).controller.tracker.groups.get? (Key.l3Ecmp 4) = none := by decide +kernel
  have ho : (Sample.start.run Sample.parked).controller.tracker.objectives.get? (Key.l3Ecmp 4) = some ⟨0, [r]⟩ := by
    decide +kernel
  have ha : (Sample.start.run Sample.parked).controller.deferred.get? r.objective.id =
      some (Sample.addition 1 ⟨20⟩) := by
    decide +kernel
  refine ⟨⟨by decide +kernel, by decide +kernel, ha⟩, ?_, by decide +kernel⟩
  unfold Sample.start at h hg ho ha ⊢
  have hsame := put_aside_eq_added_later h 0 hg ho rfl ha
  exact hsame

end FlowGroups
