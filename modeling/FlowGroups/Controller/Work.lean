/-
The controller's work queue: groups to create, elements to act on, keys to resolve. One piece of
work can lead to others, which go to the end of the queue. The queue always runs dry, because what
is left to do, in the queue and in waiting, gets less with every step (`potential_process`).
-/
import FlowGroups.Controller

namespace FlowGroups

inductive Work
  /-- ask for a group without prerequisites -/
  | create (d : Descriptor)
  /-- act on an element whose prerequisites exist -/
  | element (e : Element)
  /-- a key is confirmed -/
  | resolve (k : Key)
deriving DecidableEq, Repr

namespace Controller

/-! ## Steps -/

/-- registers the elements of a plan; the ones that are ready at once become work -/
def registerElements (c : Controller) (owner : Key) : List Element → Controller × List Work
  | [] => (c, [])
  | e :: es =>
    let (tracker, ready) := c.tracker.registerElement e owner
    let (c, work) := { c with tracker }.registerElements owner es
    (c, ready.toList.map .element ++ work)

/-- merges a new chain into the record of an objective and sets its groups to work -/
def extend (c : Controller) (existing : Record) (a : Addition) : Controller × List Work :=
  let c := { c with store := c.store.put (existing.append a.plan.record) }
  let (c, work) := c.registerElements a.plan.topKey a.plan.elements
  (c.reply a.ticket (.installed a.plan.topId), work ++ a.plan.initial.map .create)

/-- an objective is installed: it is recorded first and then answered -/
def complete (c : Controller) (k : Key) (r : Registrant) : Controller × List Work :=
  let id := ((c.group? k).map (·.id)).getD r.topId
  let metrics := { c.metrics with installed := c.metrics.installed + 1 }
  let c := { c with store := c.store.put r.record, metrics }.reply r.ticket (.installed id)
  match c.deferred.get? r.objective.id with
  | some a => { c with deferred := c.deferred.erase r.objective.id }.extend r.record a
  | none => (c, [])

def completeAll (c : Controller) (k : Key) : List Registrant → Controller × List Work
  | [] => (c, [])
  | r :: rs =>
    let (c, work) := c.complete k r
    let (c, rest) := c.completeAll k rs
    (c, work ++ rest)

/-- asks for a group, unless it is on its way or there already -/
def submit (c : Controller) (d : Descriptor) : Controller × List Work :=
  if d.key ∈ c.requested then (c, [])
  else if (c.group? d.key).isSome then (c, [.resolve d.key])
  else
    ({ c with
        requested := d.key :: c.requested
        metrics := { c.metrics with submitted := c.metrics.submitted + 1 }
        switch := c.switch.addGroup d }, [])

/-- acts on an element: its group is asked for, or its buckets go to the group that is there -/
def act (c : Controller) (e : Element) : Controller × List Work :=
  let d := e.descriptor
  if e.addBucket then
    ({ c with switch := c.switch.addBuckets d.device d.key d.buckets }, [])
  else c.submit d

/-- a key is confirmed: elements move on, or objectives are installed -/
def confirm (c : Controller) (k : Key) : Controller × List Work :=
  let c := c.release k
  match c.tracker.resolve k with
  | (tracker, .advance ready) => ({ c with tracker }, ready.map .element)
  | (tracker, .complete registrants) => { c with tracker }.completeAll k registrants
  | (_, .noop) => (c, [])

def process (c : Controller) : Work → Controller × List Work
  | .create d => c.submit d
  | .element e => c.act e
  | .resolve k => c.confirm k

end Controller

/-! ## What is left to do -/

namespace Work

def weight : Work → Nat
  | .create _ => 3
  | .element _ => 3
  | .resolve _ => 1

def total : List Work → Nat
  | [] => 0
  | w :: ws => w.weight + total ws

theorem total_append (ws vs : List Work) : total (ws ++ vs) = total ws + total vs := by
  induction ws with
  | nil => simp [total]
  | cons w ws ih => simp only [List.cons_append, total, ih]; omega

theorem total_element (es : List Element) : total (es.map .element) = 3 * es.length := by
  induction es with
  | nil => rfl
  | cons e es ih => simp only [List.map_cons, total, ih, weight, List.length_cons]; omega

theorem total_create (ds : List Descriptor) : total (ds.map .create) = 3 * ds.length := by
  induction ds with
  | nil => rfl
  | cons d ds ih => simp only [List.map_cons, total, ih, weight, List.length_cons]; omega

end Work

namespace Controller

/-- the groups of all deferred buckets -/
def deferredGroups (c : Controller) : List Descriptor :=
  c.deferred.values.flatMap fun a => a.plan.descriptors

/-- the work that waiting elements, deferred buckets and undelivered events can still cause -/
def potential (c : Controller) : Nat :=
  3 * c.tracker.waiting.length + 3 * c.deferredGroups.length + 2 * c.switch.events.length

theorem length_flatMap_filter_le {β γ : Type} (p : β → Bool) (f : β → List γ) (l : List β) :
    ((l.filter p).flatMap f).length ≤ (l.flatMap f).length := by
  induction l with
  | nil => simp
  | cons b l ih =>
    rw [List.filter_cons]
    split <;> simp only [List.flatMap_cons, List.length_append] <;> omega

theorem length_deferredGroups_erase {c : Controller} {n : UInt32} {a : Addition}
    (h : c.deferred.get? n = some a) :
    { c with deferred := c.deferred.erase n }.deferredGroups.length + a.plan.descriptors.length ≤
      c.deferredGroups.length := by
  simp only [Registry.get?, Option.map_eq_some_iff] at h
  obtain ⟨e, he, rfl⟩ := h
  obtain ⟨hk, front, back, hl, -⟩ := List.find?_eq_some_iff_append.1 he
  have hn : e.1 = n := by simpa using hk
  have h1 := length_flatMap_filter_le (fun e => decide (e.1 ≠ n))
    (fun e : UInt32 × Addition => e.2.plan.descriptors) front
  have h2 := length_flatMap_filter_le (fun e => decide (e.1 ≠ n))
    (fun e : UInt32 × Addition => e.2.plan.descriptors) back
  have h3 : (e :: back).filter (fun e => decide (e.1 ≠ n)) =
      back.filter fun e => decide (e.1 ≠ n) := List.filter_cons_of_neg (by simp [hn])
  simp only [deferredGroups, Registry.values, Registry.erase, hl, List.filter_append, h3,
    List.flatMap_map, List.flatMap_append, List.flatMap_cons, List.length_append]
  omega

theorem potential_registerElements (owner : Key) (es : List Element) (c : Controller) :
    (c.registerElements owner es).1.potential + Work.total (c.registerElements owner es).2 =
      c.potential + 3 * es.length := by
  induction es generalizing c with
  | nil => simp [registerElements, Work.total]
  | cons e es ih =>
    simp only [registerElements]
    have h := ih { c with tracker := (c.tracker.registerElement e owner).1 }
    rw [Work.total_append, Work.total_element]
    have hr : (c.tracker.registerElement e owner).1.waiting.length +
        (c.tracker.registerElement e owner).2.toList.length = c.tracker.waiting.length + 1 := by
      unfold Tracker.registerElement
      split <;> simp
    simp only [potential, deferredGroups, List.length_cons] at h ⊢
    omega

theorem potential_extend (c : Controller) (existing : Record) (a : Addition) :
    (c.extend existing a).1.potential + Work.total (c.extend existing a).2 =
      c.potential + 3 * a.plan.descriptors.length := by
  have h := potential_registerElements a.plan.topKey a.plan.elements
    { c with store := c.store.put (existing.append a.plan.record) }
  simp only [extend, Work.total_append, Work.total_create, Plan.descriptors, List.length_append,
    List.length_map]
  simp only [potential, deferredGroups, reply] at h ⊢
  omega

theorem potential_complete (c : Controller) (k : Key) (r : Registrant) :
    (c.complete k r).1.potential + Work.total (c.complete k r).2 ≤ c.potential := by
  unfold complete
  simp only [reply]
  split
  · rename_i a ha
    have h := length_deferredGroups_erase ha
    rw [potential_extend]
    simp only [potential, deferredGroups] at h ⊢
    omega
  · simp [potential, deferredGroups, Work.total]

theorem potential_completeAll (k : Key) (rs : List Registrant) (c : Controller) :
    (c.completeAll k rs).1.potential + Work.total (c.completeAll k rs).2 ≤ c.potential := by
  induction rs generalizing c with
  | nil => simp [completeAll, Work.total]
  | cons r rs ih =>
    simp only [completeAll, Work.total_append]
    have h1 := potential_complete c k r
    have h2 := ih (c.complete k r).1
    omega

theorem length_events_addGroup (s : Switch) (d : Descriptor) :
    (s.addGroup d).events.length ≤ s.events.length + 1 := by
  cases h : s.isAutomatic <;> simp [Switch.addGroup, Switch.log, Switch.emit, h]

theorem events_addBuckets (s : Switch) (device : DeviceId) (k : Key) (bs : List Bucket) :
    (s.addBuckets device k bs).events = s.events := by
  unfold Switch.addBuckets Switch.editBuckets
  split <;> simp [Switch.log]

theorem potential_submit (c : Controller) (d : Descriptor) :
    (c.submit d).1.potential + Work.total (c.submit d).2 < c.potential + 3 := by
  unfold submit
  split
  · simp [Work.total]
  · split
    · simp [Work.total, Work.weight]
    · have := length_events_addGroup c.switch d
      simp only [potential, deferredGroups, Work.total]
      omega

theorem length_waiting_resolve {t t' : Tracker} {k : Key} {ready : List Element}
    (h : t.resolve k = (t', .advance ready)) :
    t'.waiting.length + ready.length = t.waiting.length := by
  unfold Tracker.resolve at h
  split at h
  · rename_i ids _
    simp only [Prod.mk.injEq, Resolution.advance.injEq] at h
    obtain ⟨rfl, rfl⟩ := h
    have hl := List.length_eq_countP_add_countP (Tracker.isReady ids)
      (l := t.waiting.map (Tracker.countDown ids))
    simp only [List.countP_eq_length_filter, List.length_map, Bool.not_eq_true,
      Bool.decide_eq_false] at hl ⊢
    omega
  · split at h <;> simp at h

theorem tracker_resolve_complete {t t' : Tracker} {k : Key} {rs : List Registrant}
    (h : t.resolve k = (t', .complete rs)) : t'.waiting = t.waiting := by
  unfold Tracker.resolve at h
  split at h
  · simp at h
  · split at h
    · simp only [Prod.mk.injEq] at h
      rw [← h.1]
    · simp at h

theorem potential_confirm (c : Controller) (k : Key) :
    (c.confirm k).1.potential + Work.total (c.confirm k).2 ≤ c.potential := by
  simp only [confirm, release]
  split
  · rename_i ready h
    have := length_waiting_resolve h
    simp only [Work.total_element, potential, deferredGroups]
    omega
  · rename_i rs h
    refine Nat.le_trans (potential_completeAll _ _ _) ?_
    simp only [potential, deferredGroups, tracker_resolve_complete h]
    omega
  · simp [potential, deferredGroups, Work.total]

/-- **Every step leaves less to do.** -/
theorem potential_process (c : Controller) (w : Work) :
    (c.process w).1.potential + Work.total (c.process w).2 < c.potential + w.weight := by
  cases w with
  | create d => exact potential_submit c d
  | element e =>
    simp only [process, act]
    split
    · simp only [potential, deferredGroups, events_addBuckets, Work.total, Work.weight]
      omega
    · exact potential_submit c e.descriptor
  | resolve k =>
    have := potential_confirm c k
    simp only [process, Work.weight]
    omega

/-! ## Running dry -/

/-- works off a queue, and looks at what is pending afterwards -/
def drain (c : Controller) : List Work → Controller
  | [] => c.updateGauges
  | w :: ws => (c.process w).1.drain (ws ++ (c.process w).2)
termination_by ws => c.potential + Work.total ws
decreasing_by
  have := potential_process c w
  rw [Work.total_append, Work.total]
  omega

theorem potential_drain (c : Controller) (ws : List Work) :
    (c.drain ws).potential + ws.length ≤ c.potential + Work.total ws := by
  fun_induction drain c ws with
  | case1 c => simp [potential, deferredGroups, updateGauges, Work.total]
  | case2 c w ws ih =>
    have := potential_process c w
    rw [Work.total_append] at ih
    rw [Work.total, List.length_cons]
    simp only [List.length_append] at ih
    omega

end Controller

end FlowGroups
