/-
What each operation of the controller can do, case by case; later proofs cite these and open no definition.

- `submit_cases`, `confirm_cases`, `complete_cases`, `abandonOne_cases`, `addBucket_cases`, `removeBucket_cases`.
- `Performs`: the ways an item of work is done; what it keeps is proved by cases on them.
- `completeAll_keeps`, `abandon_keeps`, `expire_keeps`, `giveUp_keeps`: what one registrant's end preserves, the end of
  several does.
- `SameGroups`, `process_groups`: only asking for a group makes one known, and nothing here makes one unknown.
-/
import FlowGroups.Controller.Handlers
import FlowGroups.Proofs.Tracker
import FlowGroups.Proofs.Switch

namespace FlowGroups.Controller

/-- does the group under a key exist on the controller's device? -/
def Stands (c : Controller) (k : Key) : Prop := c.switch.Stands (c.device, k)

/-- is it there, or asked for? -/
def Knows (c : Controller) (k : Key) : Prop := c.switch.Knows (c.device, k)

theorem stands_iff {c : Controller} {k : Key} : c.Stands k ↔ (c.group? k).isSome := by
  rw [Option.isSome_iff_exists]
  exact Iff.rfl

instance (c : Controller) (k : Key) : Decidable (c.Stands k) := decidable_of_iff _ stands_iff.symm

theorem Stands.knows {c : Controller} {k : Key} (h : c.Stands k) : c.Knows k := Or.inl h

/-! ## Work -/

theorem registerElements_eq (owner : Key) (es : List Element) (c : Controller) :
    c.registerElements owner es =
      ({ c with tracker := (c.tracker.registerAll owner es).1 }, (c.tracker.registerAll owner es).2.map .element) := by
  induction es generalizing c with
  | nil => rfl
  | cons e es ih =>
    simp only [registerElements, ih, Tracker.registerAll, List.map_append]

theorem extend_eq (c : Controller) (existing : Record) (a : Addition) :
    c.extend existing a =
      ({ c with
          store := c.store.put (existing.append a.plan.record)
          tracker := (c.tracker.registerAll a.plan.topKey a.plan.elements).1
          replies := c.replies ++ [⟨a.ticket, .installed a.plan.topId⟩] },
        (c.tracker.registerAll a.plan.topKey a.plan.elements).2.map .element ++ a.plan.initial.map .create) := by
  simp only [extend, registerElements_eq, reply]

/-- the controller once a group is asked for -/
def asked (c : Controller) (d : Descriptor) : Controller :=
  { c with
    requested := d.key :: c.requested
    metrics := { c.metrics with submitted := c.metrics.submitted + 1 }
    switch := c.switch.addGroup d }

theorem submit_cases (c : Controller) (d : Descriptor) :
    (d.key ∈ c.requested ∧ c.submit d = (c, [])) ∨ (c.Stands d.key ∧ c.submit d = (c, [.resolve d.key])) ∨
      c.submit d = (c.asked d, []) := by
  unfold submit
  split_ifs with hr hs
  · exact Or.inl ⟨hr, rfl⟩
  · exact Or.inr (Or.inl ⟨stands_iff.2 hs, rfl⟩)
  · exact Or.inr (Or.inr rfl)

/-- the controller once an objective is recorded and answered -/
def recorded (c : Controller) (k : Key) (r : Registrant) : Controller :=
  { c with
    store := c.store.put r.record
    metrics := { c.metrics with installed := c.metrics.installed + 1 }
    replies := c.replies ++ [⟨r.ticket, .installed (((c.group? k).map (·.id)).getD r.topId)⟩] }

theorem complete_of_some {c : Controller} {r : Registrant} {a : Addition}
    (h : c.deferred.get? r.objective.id = some a) (k : Key) :
    c.complete k r = { c.recorded k r with deferred := c.deferred.erase r.objective.id }.extend r.record a := by
  simp only [complete, reply, h, recorded]

theorem complete_of_none {c : Controller} {r : Registrant} (h : c.deferred.get? r.objective.id = none) (k : Key) :
    c.complete k r = (c.recorded k r, []) := by
  simp only [complete, reply, h, recorded]

theorem complete_cases (c : Controller) (k : Key) (r : Registrant) :
    (∃ a, c.deferred.get? r.objective.id = some a ∧ c.complete k r =
      { c.recorded k r with deferred := c.deferred.erase r.objective.id }.extend r.record a) ∨
      (c.deferred.get? r.objective.id = none ∧ c.complete k r = (c.recorded k r, [])) := by
  cases h : c.deferred.get? r.objective.id with
  | none => exact Or.inr ⟨rfl, complete_of_none h k⟩
  | some a => exact Or.inl ⟨a, rfl, complete_of_some h k⟩

/-- what every completion preserves, with the registrants still to come and the work so far -/
theorem completeAll_keeps {P : List Registrant → Controller → List Work → Prop} {k : Key}
    (hstep : ∀ r rs c ws, P (r :: rs) c ws → P rs (c.complete k r).1 (ws ++ (c.complete k r).2))
    {rs : List Registrant} {c : Controller} (h : P rs c []) : P [] (c.completeAll k rs).1 (c.completeAll k rs).2 := by
  have hall : ∀ rs c ws, P rs c ws → P [] (c.completeAll k rs).1 (ws ++ (c.completeAll k rs).2) := by
    intro rs
    induction rs with
    | nil =>
      intro c ws h
      rw [completeAll, List.append_nil]
      exact h
    | cons r rs ih =>
      intro c ws h
      simp only [completeAll, ← List.append_assoc]
      exact ih _ _ (hstep r rs c ws h)
  exact hall rs c [] h

theorem confirm_of_awaited {c : Controller} {k : Key} {ids : List Nat} (hg : c.tracker.groups.get? k = some ids) :
    c.confirm k = ({ c.release k with tracker := c.tracker.advance k ids },
      (c.tracker.readyAfter ids).map .element) := by
  simp only [confirm, Tracker.resolve, release, hg]
  rfl

theorem confirm_of_registered {c : Controller} {k : Key} {rs : Registrants} (hg : c.tracker.groups.get? k = none)
    (ho : c.tracker.objectives.get? k = some rs) :
    c.confirm k = { c.release k with tracker := c.tracker.discharge k }.completeAll k rs.list := by
  simp only [confirm, Tracker.resolve, release, hg, ho]
  rfl

theorem confirm_of_unknown {c : Controller} {k : Key} (hg : c.tracker.groups.get? k = none)
    (ho : c.tracker.objectives.get? k = none) : c.confirm k = (c.release k, []) := by
  simp only [confirm, Tracker.resolve, release, hg, ho]

theorem confirm_cases (c : Controller) (k : Key) :
    (∃ ids, c.tracker.groups.get? k = some ids ∧ c.confirm k =
      ({ c.release k with tracker := c.tracker.advance k ids }, (c.tracker.readyAfter ids).map .element)) ∨
      (∃ rs, c.tracker.groups.get? k = none ∧ c.tracker.objectives.get? k = some rs ∧
        c.confirm k = { c.release k with tracker := c.tracker.discharge k }.completeAll k rs.list) ∨
      c.confirm k = (c.release k, []) := by
  cases hg : c.tracker.groups.get? k with
  | some ids => exact Or.inl ⟨ids, rfl, confirm_of_awaited hg⟩
  | none =>
    cases ho : c.tracker.objectives.get? k with
    | some rs => exact Or.inr (Or.inl ⟨rs, rfl, rfl, confirm_of_registered hg ho⟩)
    | none => exact Or.inr (Or.inr (confirm_of_unknown hg ho))

/-- the group that an item of work asks for -/
def Asks (w : Work) (d : Descriptor) : Prop :=
  w = .create d ∨ ∃ e, w = .element e ∧ e.addBucket = false ∧ e.descriptor = d

theorem Asks.ne_resolve {w : Work} {d : Descriptor} (h : Asks w d) (k : Key) : w ≠ .resolve k := by
  rcases h with rfl | ⟨e, rfl, -, -⟩ <;> nofun

/-- the ways an item of work is done, with what it changes and the work it leads to -/
inductive Performs (c : Controller) : Work → Controller × List Work → Prop
  /-- the group is on its way already -/
  | awaited {w : Work} {d : Descriptor} (hw : Asks w d) (hr : d.key ∈ c.requested) : Performs c w (c, [])
  /-- the group is there already -/
  | found {w : Work} {d : Descriptor} (hw : Asks w d) (hs : c.Stands d.key) : Performs c w (c, [.resolve d.key])
  | ask {w : Work} {d : Descriptor} (hw : Asks w d) (hr : d.key ∉ c.requested) (hs : ¬c.Stands d.key) :
    Performs c w (c.asked d, [])
  | addBuckets {e : Element} (he : e.addBucket = true) : Performs c (.element e)
    ({ c with switch := c.switch.addBuckets e.descriptor.device e.descriptor.key e.descriptor.buckets }, [])
  | confirm (k : Key) : Performs c (.resolve k) (c.confirm k)

theorem performs (c : Controller) (w : Work) : c.Performs w (c.process w) := by
  have hsubmit : ∀ {d}, Asks w d → c.Performs w (c.submit d) := by
    intro d hw
    unfold submit
    split_ifs with hr hs
    · exact .awaited hw hr
    · exact .found hw (stands_iff.2 hs)
    · exact .ask hw hr (stands_iff.not.2 hs)
  cases w with
  | create d => exact hsubmit (Or.inl rfl)
  | element e =>
    simp only [process, act]
    split_ifs with hb
    · exact .addBuckets hb
    · exact hsubmit (Or.inr ⟨e, rfl, by simpa using hb, rfl⟩)
  | resolve k => exact .confirm k

/-! ## Giving up -/

/-- the keys of a registrant that nobody else awaits -/
def unclaimed (c : Controller) (r : Registrant) : List Key :=
  r.record.distinctKeys.filter fun k => !c.tracker.isPending k

/-- the controller once a registrant has failed -/
def failed (c : Controller) (r : Registrant) : Controller :=
  { c with
    requested := c.requested.filter fun k => k ∉ c.unclaimed r
    metrics := { c.metrics with failed := c.metrics.failed + 1 }
    replies := c.replies ++ [⟨r.ticket, .failed .installationFailed⟩] }

theorem foldl_release (ks : List Key) (c : Controller) :
    ks.foldl release c = { c with requested := c.requested.filter fun k => k ∉ ks } := by
  induction ks generalizing c with
  | nil => simp
  | cons k ks ih =>
    rw [List.foldl_cons, ih]
    simp only [release, List.filter_filter, List.mem_cons]
    congr 1
    refine List.filter_congr fun j _ => ?_
    by_cases hj : j = k <;> simp [hj]

theorem countFailure_release (c : Controller) (r : Registrant) :
    ((c.unclaimed r).foldl release c).countFailure.fail r.ticket .installationFailed = c.failed r := by
  rw [foldl_release]
  rfl

theorem abandonOne_of_some {c : Controller} {r : Registrant} {a : Addition}
    (h : c.deferred.get? r.objective.id = some a) : c.abandonOne r =
      { c.failed r with deferred := c.deferred.erase r.objective.id }.fail a.ticket .installationFailed := by
  have hfailed := c.countFailure_release r
  have hsame : (c.failed r).deferred = c.deferred := rfl
  rw [unclaimed] at hfailed
  simp only [abandonOne, hfailed, hsame, h]

theorem abandonOne_of_none {c : Controller} {r : Registrant} (h : c.deferred.get? r.objective.id = none) :
    c.abandonOne r = c.failed r := by
  have hfailed := c.countFailure_release r
  have hsame : (c.failed r).deferred = c.deferred := rfl
  rw [unclaimed] at hfailed
  simp only [abandonOne, hfailed, hsame, h]

theorem abandonOne_cases (c : Controller) (r : Registrant) :
    (∃ a, c.deferred.get? r.objective.id = some a ∧ c.abandonOne r =
      { c.failed r with deferred := c.deferred.erase r.objective.id }.fail a.ticket .installationFailed) ∨
      (c.deferred.get? r.objective.id = none ∧ c.abandonOne r = c.failed r) := by
  cases h : c.deferred.get? r.objective.id with
  | none => exact Or.inr ⟨rfl, abandonOne_of_none h⟩
  | some a => exact Or.inl ⟨a, rfl, abandonOne_of_some h⟩

theorem abandon_keeps {P : List Registrant → Controller → Prop}
    (hstep : ∀ r rs c, P (r :: rs) c → P rs (c.abandonOne r)) {rs : List Registrant} {c : Controller} (h : P rs c) :
    P [] (c.abandon rs) := by
  induction rs generalizing c with
  | nil => exact h
  | cons r rs ih => exact ih (hstep r rs c h)

/-- the expired objectives are given up one after the other -/
theorem expire_eq (c : Controller) (now : Nat) :
    c.expire now = ({ c with tracker := (c.tracker.expire now).1 }.abandon
      ((c.tracker.expire now).2.flatMap Prod.snd)).updateGauges := by
  have hall : ∀ (es : List (Key × List Registrant)) (d : Controller),
      es.foldl (fun d e => d.abandon e.2) d = d.abandon (es.flatMap Prod.snd) := by
    intro es
    induction es with
    | nil => exact fun d => rfl
    | cons e es ih =>
      intro d
      rw [List.foldl_cons, ih, List.flatMap_cons, abandon, abandon, abandon, List.foldl_append]
  rw [← hall]
  rfl

theorem expire_keeps {P : List Registrant → Controller → Prop} {c : Controller} {now : Nat}
    (hstep : ∀ r rs c, P (r :: rs) c → P rs (c.abandonOne r))
    (hgauges : ∀ c, P [] c → P [] c.updateGauges)
    (h : P ((c.tracker.expire now).2.flatMap Prod.snd) { c with tracker := (c.tracker.expire now).1 }) :
    P [] (c.expire now) := by
  rw [expire_eq]
  exact hgauges _ (abandon_keeps hstep h)

/-! ## Requests -/

/-- the controller once a request is refused; a fault of the store also ends it -/
def refused (c : Controller) (ticket : Ticket) (e : ObjectiveError) (stop : Bool) : Controller :=
  { c with replies := c.replies ++ [⟨ticket, .failed e⟩], isStopped := stop }

/-- a bucket for an objective that is not stored is kept, or refused -/
theorem addBucket_cases {c : Controller} {a : Addition}
    (h : ∀ existing, c.store.get a.objective.id ≠ .ok (some existing)) :
    (∃ e stop, c.addBucket a = c.refused a.ticket e stop) ∨
      (c.tracker.hasObjective a.objective.id = true ∧ c.deferred.get? a.objective.id = none ∧
        c.addBucket a = { c with deferred := c.deferred.insert a.objective.id a }) := by
  unfold addBucket
  split
  · exact Or.inl ⟨_, _, rfl⟩
  · rename_i existing hs
    exact absurd hs (h existing)
  · split_ifs with ho hd
    · exact Or.inl ⟨_, _, rfl⟩
    · refine Or.inr ⟨ho, ?_, rfl⟩
      rw [Registry.contains_eq_isSome, Bool.not_eq_true, Option.isSome_eq_false_iff, Option.isNone_iff_eq_none] at hd
      exact hd
    · exact Or.inl ⟨_, _, rfl⟩

theorem tracker_addBucket {c : Controller} {a : Addition}
    (h : ∀ existing, c.store.get a.objective.id ≠ .ok (some existing)) : (c.addBucket a).tracker = c.tracker := by
  rcases c.addBucket_cases h with ⟨e, stop, he⟩ | ⟨-, -, he⟩
  · rw [he]
    rfl
  · rw [he]

theorem removeBucket_cases (c : Controller) (ticket : Ticket) (o : Objective) (port : PortNumber) :
    (∃ e stop, c.removeBucket ticket o port = c.refused ticket e stop) ∨
      ∃ existing i k bs id, c.store.get o.id = .ok (some existing) ∧ c.removeBucket ticket o port =
        { c with
          switch := c.switch.removeBuckets c.device k bs
          store := c.store.put { existing with chains := existing.chains.eraseIdx i }
          replies := c.replies ++ [⟨ticket, .installed id⟩] } := by
  unfold removeBucket
  split
  · exact Or.inl ⟨_, _, rfl⟩
  · exact Or.inl ⟨_, _, rfl⟩
  · rename_i existing hs
    split
    · exact Or.inl ⟨_, _, rfl⟩
    · split
      · exact Or.inl ⟨_, _, rfl⟩
      · exact Or.inr ⟨existing, _, _, _, _, hs, rfl⟩

/-- takes back the bucket that waits for an objective -/
def withdraw (c : Controller) (n : UInt32) : Controller :=
  match c.deferred.get? n with
  | some a => { c with deferred := c.deferred.erase n }.fail a.ticket .missing
  | none => c

/-- gives up whoever waits for an objective -/
def giveUp (c : Controller) (n : UInt32) : Controller :=
  if (c.tracker.takeObjective n).2 = [] then { c with tracker := (c.tracker.takeObjective n).1 }
  else ({ c with tracker := (c.tracker.takeObjective n).1 }.abandon (c.tracker.takeObjective n).2).updateGauges

/-- deletes the groups of a stored objective and its record -/
def deleteStored (c : Controller) (ticket : Ticket) (o : Objective) : Controller :=
  match c.store.get o.id with
  | .error e => c.halt ticket e
  | .ok none => c.fail ticket .missing
  | .ok (some existing) =>
    { existing.distinctKeys.foldl removeGroup c with
      store := ((existing.distinctKeys.foldl removeGroup c).store.remove o.id).1 }.reply ticket .removed

theorem remove_eq (c : Controller) (ticket : Ticket) (o : Objective) :
    c.remove ticket o = ((c.withdraw o.id).giveUp o.id).deleteStored ticket o := rfl

theorem giveUp_keeps {P : List Registrant → Controller → Prop} {c : Controller} {n : UInt32}
    (hstep : ∀ r rs c, P (r :: rs) c → P rs (c.abandonOne r))
    (hgauges : ∀ c, P [] c → P [] c.updateGauges)
    (h : P (c.tracker.takeObjective n).2 { c with tracker := (c.tracker.takeObjective n).1 }) :
    P [] (c.giveUp n) := by
  unfold giveUp
  split_ifs with hr
  · rw [hr] at h
    exact h
  · exact hgauges _ (abandon_keeps hstep h)

/-- giving up an objective writes nothing -/
theorem store_giveUp (c : Controller) (n : UInt32) : (c.giveUp n).store = c.store := by
  refine giveUp_keeps (P := fun _ d => d.store = c.store) ?_ (fun _ hd => hd) rfl
  intro r rs d hd
  rcases d.abandonOne_cases r with ⟨a, -, he⟩ | ⟨-, he⟩ <;> rw [he] <;> exact hd

theorem store_withdraw (c : Controller) (n : UInt32) : (c.withdraw n).store = c.store := by
  unfold withdraw
  split <;> rfl

theorem foldl_removeGroup (ks : List Key) (c : Controller) :
    ks.foldl removeGroup c =
      { c with
        switch := c.switch.removeGroups c.device ks
        requested := c.requested.filter fun k => k ∉ ks } := by
  induction ks generalizing c with
  | nil => simp [Switch.removeGroups]
  | cons k ks ih =>
    rw [List.foldl_cons, ih]
    simp only [removeGroup, release, Switch.removeGroups, List.foldl_cons, List.filter_filter, List.mem_cons]
    congr 1
    refine List.filter_congr fun j _ => ?_
    by_cases hj : j = k <;> simp [hj]

theorem deleteStored_cases (c : Controller) (ticket : Ticket) (o : Objective) :
    (∃ e stop, c.deleteStored ticket o = c.refused ticket e stop) ∨
      ∃ existing, c.store.get o.id = .ok (some existing) ∧ c.deleteStored ticket o =
        { c with
          switch := c.switch.removeGroups c.device existing.distinctKeys
          requested := c.requested.filter fun k => k ∉ existing.distinctKeys
          store := (c.store.remove o.id).1
          replies := c.replies ++ [⟨ticket, .removed⟩] } := by
  unfold deleteStored
  split
  · exact Or.inl ⟨_, _, rfl⟩
  · exact Or.inl ⟨_, _, rfl⟩
  · rename_i existing hs
    rw [foldl_removeGroup]
    exact Or.inr ⟨existing, hs, rfl⟩

/-! ## Groups -/

/-- the same groups stand and are known, and no more keys are marked as requested -/
structure SameGroups (c d : Controller) : Prop where
  device : d.device = c.device
  stands : ∀ k, d.Stands k ↔ c.Stands k
  knows : ∀ k, d.Knows k ↔ c.Knows k
  requested : ∀ k ∈ d.requested, k ∈ c.requested

theorem SameGroups.refl (c : Controller) : c.SameGroups c :=
  ⟨rfl, fun _ => Iff.rfl, fun _ => Iff.rfl, fun _ h => h⟩

theorem SameGroups.trans {c d e : Controller} (h : c.SameGroups d) (h' : d.SameGroups e) : c.SameGroups e :=
  ⟨h'.device.trans h.device, fun k => (h'.stands k).trans (h.stands k), fun k => (h'.knows k).trans (h.knows k),
    fun k hk => h.requested k (h'.requested k hk)⟩

theorem SameGroups.of_eq {c d : Controller} (hd : d.device = c.device) (hs : d.switch = c.switch)
    (hr : ∀ k ∈ d.requested, k ∈ c.requested) : c.SameGroups d := by
  refine ⟨hd, fun k => ?_, fun k => ?_, hr⟩
  · rw [Stands, Stands, hd, hs]
  · rw [Knows, Knows, hd, hs]

theorem same_editBuckets (c : Controller) (op : SwitchOp) (device : DeviceId) (k : Key)
    (f : List Bucket → List Bucket) :
    c.SameGroups { c with switch := (c.switch.log op).editBuckets device k f } :=
  ⟨rfl, fun _ => Switch.stands_editBuckets, fun _ => or_congr Switch.stands_editBuckets Switch.holds_editBuckets,
    fun _ hj => hj⟩

theorem same_release (c : Controller) (k : Key) : c.SameGroups (c.release k) :=
  .of_eq rfl rfl fun _ hj => List.mem_of_mem_filter hj

theorem same_completeAll (c : Controller) (k : Key) (rs : List Registrant) :
    c.SameGroups (c.completeAll k rs).1 := by
  refine completeAll_keeps (P := fun _ d _ => c.SameGroups d) (fun r rs d ws h => h.trans ?_) (.refl c)
  rcases d.complete_cases k r with ⟨a, -, he⟩ | ⟨-, he⟩
  · rw [he, extend_eq]
    exact .of_eq rfl rfl fun _ hj => hj
  · rw [he]
    exact .of_eq rfl rfl fun _ hj => hj

theorem same_expire (c : Controller) (now : Nat) : c.SameGroups (c.expire now) := by
  refine expire_keeps (P := fun _ d => c.SameGroups d) (fun r rs d h => h.trans ?_)
    (fun d h => h.trans (.of_eq rfl rfl fun _ hj => hj)) (.of_eq rfl rfl fun _ hj => hj)
  rcases d.abandonOne_cases r with ⟨a, -, he⟩ | ⟨-, he⟩
  · rw [he]
    exact .of_eq rfl rfl fun _ hj => List.mem_of_mem_filter hj
  · rw [he]
    exact .of_eq rfl rfl fun _ hj => List.mem_of_mem_filter hj

theorem same_confirm (c : Controller) (k : Key) : c.SameGroups (c.confirm k).1 := by
  refine (c.same_release k).trans ?_
  rcases c.confirm_cases k with ⟨ids, -, he⟩ | ⟨rs, -, -, he⟩ | he
  · rw [he]
    exact .of_eq rfl rfl fun _ hj => hj
  · rw [he]
    have hd : (c.release k).SameGroups { c.release k with tracker := c.tracker.discharge k } :=
      .of_eq rfl rfl fun _ hj => hj
    exact hd.trans (same_completeAll _ k rs.list)
  · rw [he]
    exact .refl _

/-- a confirmed key changes nothing on the switch, and puts no bucket aside -/
theorem confirm_spares (c : Controller) (k : Key) : (c.confirm k).1.switch = c.switch ∧
    ∀ n, c.deferred.get? n = none → (c.confirm k).1.deferred.get? n = none := by
  rcases c.confirm_cases k with ⟨ids, -, he⟩ | ⟨rs, -, -, he⟩ | he
  · rw [he]
    exact ⟨rfl, fun _ h => h⟩
  · rw [he]
    refine completeAll_keeps (P := fun _ d _ => d.switch = c.switch ∧
      ∀ n, c.deferred.get? n = none → d.deferred.get? n = none) ?_ ⟨rfl, fun _ h => h⟩
    rintro r rs d - ⟨hs, hd⟩
    rcases d.complete_cases k r with ⟨a, -, he⟩ | ⟨-, he⟩
    · rw [he, extend_eq]
      exact ⟨hs, fun n hn => Registry.get?_erase_of_none (hd n hn)⟩
    · rw [he]
      exact ⟨hs, hd⟩
  · rw [he]
    exact ⟨rfl, fun _ h => h⟩

/-- the end of an objective's time changes nothing on the switch or in the store, and is answered with failures -/
theorem expire_spares (c : Controller) (now : Nat) :
    ((c.expire now).device = c.device ∧ (c.expire now).switch = c.switch ∧ (c.expire now).store = c.store ∧
      (c.expire now).tracker = (c.tracker.expire now).1) ∧
      (∀ n, c.deferred.get? n = none → (c.expire now).deferred.get? n = none) ∧
      (∀ k ∈ (c.expire now).requested, k ∈ c.requested) ∧
      ∀ reply ∈ (c.expire now).replies, reply ∈ c.replies ∨ ∃ e, reply.outcome = .failed e := by
  refine expire_keeps (P := fun _ d => (d.device = c.device ∧ d.switch = c.switch ∧ d.store = c.store ∧
      d.tracker = (c.tracker.expire now).1) ∧
      (∀ n, c.deferred.get? n = none → d.deferred.get? n = none) ∧ (∀ k ∈ d.requested, k ∈ c.requested) ∧
      ∀ reply ∈ d.replies, reply ∈ c.replies ∨ ∃ e, reply.outcome = .failed e) ?_ (fun d hd => hd)
    ⟨⟨rfl, rfl, rfl, rfl⟩, fun _ h => h, fun _ h => h, fun _ h => Or.inl h⟩
  rintro r rs d ⟨hd, hdeferred, hrequested, hreplies⟩
  have hfailed : ∀ {replies : List Reply} {reply : Reply} {ticket : Ticket} {e : ObjectiveError},
      (∀ reply ∈ replies, reply ∈ c.replies ∨ ∃ e, reply.outcome = .failed e) →
      reply ∈ replies ++ [⟨ticket, .failed e⟩] → reply ∈ c.replies ∨ ∃ e, reply.outcome = .failed e := by
    intro replies reply ticket e h hreply
    rcases List.mem_append.1 hreply with hreply | hreply
    · exact h reply hreply
    · exact Or.inr ⟨e, congrArg Reply.outcome (List.mem_singleton.1 hreply)⟩
  have hone : ∀ reply ∈ (d.failed r).replies, reply ∈ c.replies ∨ ∃ e, reply.outcome = .failed e :=
    fun reply hreply => hfailed hreplies hreply
  have hreleased : ∀ k ∈ (d.failed r).requested, k ∈ c.requested := fun k hk =>
    hrequested k (List.mem_of_mem_filter hk)
  rcases d.abandonOne_cases r with ⟨a, -, he⟩ | ⟨-, he⟩
  · rw [he]
    exact ⟨hd, fun n hn => Registry.get?_erase_of_none (hdeferred n hn), hreleased, fun reply hreply =>
      hfailed hone hreply⟩
  · rw [he]
    exact ⟨hd, hdeferred, hreleased, hone⟩

/-- **Work asks for one group, or the groups stay as they are.** -/
theorem process_groups (c : Controller) (w : Work) :
    c.SameGroups (c.process w).1 ∨ ∃ d, Asks w d ∧ c.process w = (c.asked d, []) := by
  have hdone := c.performs w
  generalize c.process w = x at hdone ⊢
  cases hdone with
  | awaited | found => exact Or.inl (.refl c)
  | ask hw hr hs => exact Or.inr ⟨_, hw, rfl⟩
  | addBuckets => exact Or.inl (c.same_editBuckets _ _ _ _)
  | confirm k => exact Or.inl (c.same_confirm k)

theorem stands_asked {c : Controller} {d : Descriptor} {k : Key} (h : c.Stands k) : (c.asked d).Stands k :=
  Switch.stands_addGroup h

theorem knows_asked {c : Controller} {d : Descriptor} (hd : d.device = c.device) {k : Key} :
    (c.asked d).Knows k ↔ c.Knows k ∨ k = d.key := by
  refine Switch.knows_addGroup.trans (or_congr_right ?_)
  rw [hd, Prod.mk.injEq]
  exact and_iff_right rfl

end FlowGroups.Controller
