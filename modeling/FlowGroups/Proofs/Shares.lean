/-
Shares of a controller. A share is some objectives with the keys of their groups, where no key is in the plans of both
an objective of the share and another one. What the controller and its switch hold of a share can be compared with a
controller that knows of nothing else (`Controller.Mirrors`).

- `Switch.Agrees.move`, `Switch.Agrees.move_other`: what happens to groups of the share, and to others.
- `Mirrors.process`: an item of work changes the part just if it is about a key of the share.
- `Mirrors.expire`: the time runs out for the objectives of the share as it does without the others.
-/
import FlowGroups.Proofs.Parts
import FlowGroups.Proofs.Chronicle

namespace FlowGroups

/-! ## Parts of a switch -/

/-- the group that a call is about -/
def SwitchOp.key : SwitchOp → Key
  | .addGroup d => d.key
  | .addBuckets k _ => k
  | .removeBuckets k _ => k
  | .removeGroup k => k

/-- is the move about a group of some keys, or about none? -/
def SwitchMove.concerns (p : Key → Bool) : SwitchMove → Bool
  | .confirm k => p k
  | .installSilently k => p k
  | .reject k => p k
  | .scramble _ => true

namespace Switch

/-- the groups under some keys are the same, and so are the calls about them -/
structure Agrees (p : Key → Bool) (s s' : Switch) : Prop where
  automatic : s.isAutomatic = s'.isAutomatic
  installed : s.installed.restrict (fun place => p place.2) = s'.installed.restrict fun place => p place.2
  requested : s.requested.restrict (fun place => p place.2) = s'.requested.restrict fun place => p place.2
  ops : s.ops.filter (fun op => p op.key) = s'.ops.filter fun op => p op.key

namespace Agrees

variable {p : Key → Bool} {s s' : Switch} {device : DeviceId} {k : Key}

theorem refl (p : Key → Bool) (s : Switch) : Agrees p s s := ⟨rfl, rfl, rfl, rfl⟩

theorem trans {s'' : Switch} (h : Agrees p s s') (h' : Agrees p s' s'') : Agrees p s s'' :=
  ⟨h.automatic.trans h'.automatic, h.installed.trans h'.installed, h.requested.trans h'.requested, h.ops.trans h'.ops⟩

theorem group? (h : Agrees p s s') (hk : p k = true) : s.group? device k = s'.group? device k := by
  have hs : ∀ r : Registry Place Descriptor,
      (r.restrict fun place => p place.2).get? (device, k) = r.get? (device, k) := fun r => Registry.get?_restrict hk
  rw [Switch.group?, ← hs, h.installed, hs]
  rfl

theorem log (h : Agrees p s s') (op : SwitchOp) : Agrees p (s.log op) (s'.log op) :=
  { h with ops := by simp only [Switch.log, List.filter_append, h.ops] }

theorem log_other {op : SwitchOp} (hk : p op.key = false) : Agrees p (s.log op) s :=
  { refl p s with ops := by simp [Switch.log, hk] }

/-- one more group is there -/
theorem insert (h : Agrees p s s') (place : Place) (d : Descriptor) :
    Agrees p { s with installed := s.installed.insert place d } { s' with installed := s'.installed.insert place d } :=
  { h with installed := by simp only [Registry.restrict_insert, h.installed] }

theorem insert_other {place : Place} (hk : p place.2 = false) (d : Descriptor) :
    Agrees p { s with installed := s.installed.insert place d } s :=
  { refl p s with installed := by simp [Registry.restrict_insert, hk] }

/-- one more group is held -/
theorem hold (h : Agrees p s s') (place : Place) (d : Descriptor) :
    Agrees p { s with requested := s.requested.insert place d } { s' with requested := s'.requested.insert place d } :=
  { h with requested := by simp only [Registry.restrict_insert, h.requested] }

theorem hold_other {place : Place} (hk : p place.2 = false) (d : Descriptor) :
    Agrees p { s with requested := s.requested.insert place d } s :=
  { refl p s with requested := by simp [Registry.restrict_insert, hk] }

/-- what is on its way to the controller plays no part -/
theorem emit (h : Agrees p s s') (es es' : List Event) : Agrees p { s with events := es } { s' with events := es' } :=
  { h with }

theorem addGroup (h : Agrees p s s') (d : Descriptor) : Agrees p (s.addGroup d) (s'.addGroup d) := by
  have hlog := h.log (.addGroup d)
  dsimp only [Switch.addGroup]
  by_cases ha : (s.log (.addGroup d)).isAutomatic = true
  · rw [if_pos ha, if_pos (hlog.automatic ▸ ha)]
    exact (hlog.insert _ d).emit _ _
  · rw [if_neg ha, if_neg (hlog.automatic ▸ ha)]
    exact hlog.hold _ d

theorem addGroup_other {d : Descriptor} (hk : p d.key = false) : Agrees p (s.addGroup d) s := by
  have hlog : Agrees p (s.log (.addGroup d)) s := log_other hk
  simp only [Switch.addGroup]
  split_ifs
  · exact ((insert_other hk d).trans hlog).emit _ _
  · exact (hold_other hk d).trans hlog

theorem editBuckets (h : Agrees p s s') (device : DeviceId) (hk : p k = true) (f : List Bucket → List Bucket) :
    Agrees p (s.editBuckets device k f) (s'.editBuckets device k f) := by
  simp only [Switch.editBuckets, h.group? hk]
  split
  · exact h.insert _ _
  · exact h

theorem editBuckets_other (device : DeviceId) (hk : p k = false) (f : List Bucket → List Bucket) :
    Agrees p (s.editBuckets device k f) s := by
  unfold Switch.editBuckets
  split
  · exact insert_other hk _
  · exact refl p s

theorem addBuckets (h : Agrees p s s') (device : DeviceId) (hk : p k = true) (bs : List Bucket) :
    Agrees p (s.addBuckets device k bs) (s'.addBuckets device k bs) :=
  (h.log (.addBuckets k bs)).editBuckets device hk _

theorem addBuckets_other (device : DeviceId) (hk : p k = false) (bs : List Bucket) :
    Agrees p (s.addBuckets device k bs) s :=
  (editBuckets_other device hk _).trans (log_other hk)

theorem removeBuckets (h : Agrees p s s') (device : DeviceId) (hk : p k = true) (bs : List Bucket) :
    Agrees p (s.removeBuckets device k bs) (s'.removeBuckets device k bs) :=
  (h.log (.removeBuckets k bs)).editBuckets device hk _

theorem removeBuckets_other (device : DeviceId) (hk : p k = false) (bs : List Bucket) :
    Agrees p (s.removeBuckets device k bs) s :=
  (editBuckets_other device hk _).trans (log_other hk)

/-- the groups under one key are dropped, be they there or held -/
theorem erase (h : Agrees p s s') (place : Place) :
    Agrees p { s with installed := s.installed.erase place, requested := s.requested.erase place }
      { s' with installed := s'.installed.erase place, requested := s'.requested.erase place } :=
  { h with
    installed := by simp only [Registry.restrict_erase, h.installed]
    requested := by simp only [Registry.restrict_erase, h.requested] }

theorem erase_other {place : Place} (hk : p place.2 = false) :
    Agrees p { s with installed := s.installed.erase place, requested := s.requested.erase place } s :=
  { refl p s with
    installed := by simp [Registry.restrict_erase, hk]
    requested := by simp [Registry.restrict_erase, hk] }

theorem removeGroup (h : Agrees p s s') (device : DeviceId) (k : Key) :
    Agrees p (s.removeGroup device k) (s'.removeGroup device k) := by
  have herase := (h.log (.removeGroup k)).erase (device, k)
  dsimp only [Switch.removeGroup]
  split_ifs <;> exact herase.emit _ _

theorem removeGroup_other (device : DeviceId) (hk : p k = false) : Agrees p (s.removeGroup device k) s := by
  have hlog : Agrees p (s.log (.removeGroup k)) s := log_other hk
  have hplace : p (device, k).2 = false := hk
  have herase := (erase_other hplace).trans hlog
  dsimp only [Switch.removeGroup]
  split_ifs <;> exact herase.emit _ _

theorem removeGroups (h : Agrees p s s') (device : DeviceId) (ks : List Key) :
    Agrees p (s.removeGroups device ks) (s'.removeGroups device ks) := by
  induction ks generalizing s s' with
  | nil => exact h
  | cons k ks ih => exact ih (h.removeGroup device k)

theorem removeGroups_other (device : DeviceId) {ks : List Key} (hk : ∀ k ∈ ks, p k = false) :
    Agrees p (s.removeGroups device ks) s := by
  induction ks generalizing s with
  | nil => exact refl p s
  | cons k ks ih =>
    have hrest := ih (s := s.removeGroup device k) fun j hj => hk j (List.mem_cons_of_mem k hj)
    exact hrest.trans (removeGroup_other device (hk k List.mem_cons_self))

/-! ### The switch's side -/

theorem request? (h : Agrees p s s') (hk : p k = true) : s.request? k = s'.request? k := by
  have hs : ∀ r : Registry Place Descriptor, (r.restrict fun place => p place.2).entries.find? (fun e => e.1.2 = k) =
      r.entries.find? fun e => e.1.2 = k := by
    intro r
    simp only [Registry.restrict, List.find?_filter]
    congr 1
    funext e
    by_cases he : e.1.2 = k
    · simp [he, hk]
    · simp [he]
  rw [Switch.request?, ← hs, h.requested, hs]
  rfl

theorem installSilently (h : Agrees p s s') (hk : p k = true) :
    Agrees p (s.installSilently k).1 (s'.installSilently k).1 := by
  simp only [Switch.installSilently, h.request? hk]
  split
  · exact { h with
      installed := by simp only [Registry.restrict_insert, h.installed]
      requested := by simp only [Registry.restrict_erase, h.requested] }
  · exact h

theorem installSilently_other (hk : p k = false) : Agrees p (s.installSilently k).1 s := by
  unfold Switch.installSilently
  split
  · rename_i place d hr
    have hplace : p place.2 = false := by
      have hfound := List.find?_some hr
      rw [of_decide_eq_true hfound, hk]
    exact { refl p s with
      installed := by simp [Registry.restrict_insert, hplace]
      requested := by simp [Registry.restrict_erase, hplace] }
  · exact refl p s

theorem confirm_eq (s : Switch) (k : Key) : ∃ es, (s.confirm k).1 = { (s.installSilently k).1 with events := es } := by
  unfold Switch.confirm
  split <;> rename_i h
  · rw [h]
    exact ⟨_, rfl⟩
  · rw [h]
    exact ⟨_, rfl⟩

/-- a rejection drops the requests under a key, if there are any -/
theorem reject_eq (s : Switch) (k : Key) : ∃ es, (s.reject k).1 =
    { s with
      requested := s.requested.filterMap fun place d => if place.2 = k then none else some d
      events := es } := by
  unfold Switch.reject
  split_ifs with h
  · exact ⟨_, rfl⟩
  · have hsame : (s.requested.filterMap fun place d => if place.2 = k then none else some d) = s.requested := by
      refine Registry.filterMap_eq_self fun place d hd => if_neg fun hk => h ?_
      rw [List.any_eq_true]
      refine ⟨place, ?_, by simpa using hk⟩
      rw [Registry.mem_keys_iff, Registry.contains_iff]
      exact ⟨d, hd⟩
    rw [hsame]
    exact ⟨_, rfl⟩

theorem move (h : Agrees p s s') {m : SwitchMove} (hm : m.concerns p = true) : Agrees p (s.move m) (s'.move m) := by
  cases m with
  | confirm k =>
    obtain ⟨es, he⟩ := confirm_eq s k
    obtain ⟨es', he'⟩ := confirm_eq s' k
    rw [Switch.move, Switch.move, he, he']
    exact (h.installSilently hm).emit _ _
  | installSilently k => exact h.installSilently hm
  | reject k =>
    obtain ⟨es, he⟩ := reject_eq s k
    obtain ⟨es', he'⟩ := reject_eq s' k
    rw [Switch.move, Switch.move, he, he']
    exact { h with requested := by simp only [Registry.restrict_filterMap, h.requested] }
  | scramble events => exact h.emit _ _

theorem move_other {m : SwitchMove} (hm : m.concerns p = false) : Agrees p (s.move m) s := by
  cases m with
  | confirm k =>
    obtain ⟨es, he⟩ := confirm_eq s k
    rw [Switch.move, he]
    exact (installSilently_other hm).emit _ _
  | installSilently k => exact installSilently_other hm
  | reject k =>
    obtain ⟨es, he⟩ := reject_eq s k
    have hkept : (s.requested.restrict fun place => p place.2).filterMap
        (fun place d => if place.2 = k then none else some d) = s.requested.restrict fun place => p place.2 := by
      refine Registry.filterMap_eq_self fun place d hd => if_neg ?_
      rintro rfl
      have hmine := (Registry.of_get?_restrict hd).1
      rw [SwitchMove.concerns] at hm
      rw [hm] at hmine
      cases hmine
    rw [Switch.move, he]
    exact { refl p s with requested := by rw [Registry.restrict_filterMap, hkept] }
  | scramble events => cases hm

end Agrees
end Switch

/-! ## Shares -/

/-- some objectives, and the keys of their groups -/
structure Share where
  objectives : UInt32 → Bool
  keys : Key → Bool

/-- the key of the group that an item of work is about -/
def Work.key : Work → Key
  | .create d => d.key
  | .element e => e.descriptor.key
  | .resolve k => k

/-- the keys of a plan are all among some keys, or all not -/
structure Plan.Lies (p : Plan) (keys : Key → Bool) (b : Bool) : Prop where
  top : keys p.topKey = b
  record : ∀ k ∈ p.record.distinctKeys, keys k = b
  initial : ∀ d ∈ p.initial, keys d.key = b
  elements : ∀ e ∈ p.elements, ∀ k ∈ e.keys, keys k = b

/-- does a registrant belong to the share, or does it not, in all that it names? -/
structure Registrant.Lies (r : Registrant) (share : Share) (mine : Ticket → Bool) (b : Bool) : Prop where
  objective : share.objectives r.objective.id = b
  ticket : mine r.ticket = b
  record : ∀ k ∈ r.record.distinctKeys, share.keys k = b
  own : r.record.objective = r.objective.id
  fits : r.record.Fits

structure Addition.Lies (a : Addition) (share : Share) (mine : Ticket → Bool) (b : Bool) : Prop where
  objective : share.objectives a.objective.id = b
  ticket : mine a.ticket = b
  plan : a.plan.Lies share.keys b
  fits : a.plan.record.Fits
  distinct : ∀ e ∈ a.plan.elements, e.waitOn.Nodup

namespace Share

/-- the keys of a request's plan belong to the share just if the objective does -/
def Splits (share : Share) (r : Request) : Prop :=
  ∀ p, r.plan? = some p → p.Lies share.keys (share.objectives r.objective.id)

/-- the work on groups of the share -/
def part (share : Share) (ws : List Work) : List Work := ws.filter fun w => share.keys w.key

/-- every record is one of the share with all of its keys, or with none -/
def Stores (share : Share) (s : Store) : Prop :=
  ∀ n r, s.get n = .ok (some r) → ∀ k ∈ r.distinctKeys, share.keys k = share.objectives n

/-- every request is planned for the device, and belongs to the share or does not, with its keys and its ticket -/
structure Divides (share : Share) (device : DeviceId) (mine : Ticket → Bool) (acc : List Request) : Prop where
  planned : ∀ r ∈ acc, r.Planned device
  splits : ∀ r ∈ acc, share.Splits r
  tickets : ∀ r ∈ acc, mine r.ticket = share.objectives r.objective.id

variable {share : Share} {device : DeviceId} {mine : Ticket → Bool} {acc : List Request} {b : Bool}

@[simp] theorem part_append (ws vs : List Work) : share.part (ws ++ vs) = share.part ws ++ share.part vs :=
  List.filter_append ..

theorem part_plan {p : Plan} (h : p.Lies share.keys b) (es : List Element) (hes : ∀ e ∈ es, e ∈ p.elements) :
    share.part (es.map .element ++ p.initial.map .create) =
      if b then es.map .element ++ p.initial.map .create else [] := by
  have hall : ∀ w ∈ es.map Work.element ++ p.initial.map Work.create, share.keys w.key = b := by
    intro w hw
    rcases List.mem_append.1 hw with hw | hw
    · obtain ⟨e, he, rfl⟩ := List.mem_map.1 hw
      exact h.elements e (hes e he) _ List.mem_cons_self
    · obtain ⟨d, hd, rfl⟩ := List.mem_map.1 hw
      exact h.initial d hd
  cases b with
  | true => exact List.filter_eq_self.2 hall
  | false => exact List.filter_eq_nil_iff.2 fun w hw => by simp [hall w hw]

theorem Stores.of_chain {s : Store} (h : share.Stores s) {n : UInt32} {r : Record} (hr : s.get n = .ok (some r))
    {chain : List Key} (hchain : chain ∈ r.chains) {k : Key} (hk : k ∈ chain) : share.keys k = share.objectives n :=
  h n r hr k (List.mem_eraseDups.2 (List.mem_flatten.2 ⟨chain, hchain, hk⟩))

theorem Stores.of_head {s : Store} (h : share.Stores s) {n : UInt32} {r : Record} (hr : s.get n = .ok (some r))
    {i : Nat} {top : Key} (hi : r.chains[i]?.bind List.head? = some top) : share.keys top = share.objectives n := by
  obtain ⟨chain, hchain, hhead⟩ := Option.bind_eq_some_iff.1 hi
  exact h.of_chain hr (List.mem_of_getElem? hchain) (List.mem_of_mem_head? hhead)

/-- where registrants were under a key of the share just if their objective is the share's -/
theorem filter_given {given : List (Key × List Registrant)}
    (h : ∀ e ∈ given, ∀ r ∈ e.2, share.objectives r.objective.id = share.keys e.1) :
    (given.flatMap Prod.snd).filter (fun r => share.objectives r.objective.id) =
      (given.filter fun e => share.keys e.1).flatMap Prod.snd := by
  induction given with
  | nil => rfl
  | cons e es ih =>
    have hall := h e List.mem_cons_self
    have hrest := ih fun e' he' => h e' (List.mem_cons_of_mem e he')
    rw [List.flatMap_cons, List.filter_append, hrest, List.filter_cons]
    cases he : share.keys e.1 with
    | true =>
      have hself : e.2.filter (fun r => share.objectives r.objective.id) = e.2 :=
        List.filter_eq_self.2 fun r hr => (hall r hr).trans he
      rw [hself, if_pos rfl, List.flatMap_cons]
    | false =>
      have hnone : e.2.filter (fun r => share.objectives r.objective.id) = [] :=
        List.filter_eq_nil_iff.2 fun r hr => by simp [hall r hr, he]
      rw [hnone]
      rfl

theorem Divides.registrant (h : share.Divides device mine acc) {k : Key} {r : Registrant} (hr : r.From acc k) :
    r.Lies share mine (share.keys k) := by
  obtain ⟨p, hp, rfl, hrecord⟩ := hr
  have hlies : p.Lies share.keys (share.objectives r.objective.id) := h.splits _ hp p rfl
  obtain ⟨hown, hfits⟩ := (h.planned _ hp).record rfl
  rw [hrecord] at hown hfits
  rw [hlies.top]
  exact ⟨rfl, h.tickets _ hp, hrecord ▸ hlies.record, hown, hfits⟩

theorem Divides.addition (h : share.Divides device mine acc) {a : Addition} (ha : .addBucket a ∈ acc) :
    a.Lies share mine (share.objectives a.objective.id) :=
  ⟨rfl, h.tickets _ ha, h.splits _ ha _ rfl, ((h.planned _ ha).record rfl).2,
    ((h.planned _ ha).wellFormed rfl).distinct⟩

/-- the records of the share's objectives are the same -/
def SameRecords (share : Share) (s s' : Store) : Prop := ∀ n, share.objectives n = true → s.get n = s'.get n

theorem SameRecords.put {s s' : Store} (h : share.SameRecords s s') {r : Record} (hr : r.Fits)
    (hb : share.objectives r.objective = b) : share.SameRecords (s.put r) (if b then s'.put r else s') := by
  intro n hn
  cases b with
  | true =>
    rw [if_pos rfl, Store.get_put hr, Store.get_put hr]
    split_ifs
    · rfl
    · exact h n hn
  | false =>
    have hne : n ≠ r.objective := by
      rintro rfl
      rw [hb] at hn
      cases hn
    rw [Store.get_put hr, if_neg hne]
    exact h n hn

theorem SameRecords.remove {s s' : Store} (h : share.SameRecords s s') (m : UInt32) :
    share.SameRecords (s.remove m).1 (if share.objectives m then (s'.remove m).1 else s') := by
  intro n hn
  cases hm : share.objectives m with
  | true =>
    rw [if_pos rfl, Store.get_remove, Store.get_remove]
    split_ifs
    · rfl
    · exact h n hn
  | false =>
    have hne : n ≠ m := by
      rintro rfl
      rw [hm] at hn
      cases hn
    rw [Store.get_remove, if_neg hne]
    exact h n hn

end Share

/-! ## A controller beside a part of it -/

namespace Controller

/-- what belongs to the share is the same, but for the numbers of elements and objectives -/
structure Mirrors (share : Share) (mine : Ticket → Bool) (c d : Controller) : Prop where
  device : c.device = d.device
  tracker : ∃ f g, c.tracker.Mirrors share.keys f g d.tracker
  requested : c.requested.filter share.keys = d.requested
  deferred : c.deferred.restrict share.objectives = d.deferred
  switch : c.switch.Agrees share.keys d.switch
  store : share.SameRecords c.store d.store
  replies : c.replies.filter (fun reply => mine reply.ticket) = d.replies
  running : c.isStopped = false ∧ d.isStopped = false

/-- the same, with work that is the same as far as it belongs to the share -/
def Tracks (share : Share) (mine : Ticket → Bool) (x y : Controller × List Work) : Prop :=
  x.1.Mirrors share mine y.1 ∧ share.part x.2 = y.2

/-- whatever is put aside belongs to the share or does not -/
def Parks (share : Share) (mine : Ticket → Bool) (c : Controller) : Prop :=
  ∀ n a, c.deferred.get? n = some a → a.objective.id = n ∧ a.Lies share mine (share.objectives n)

/-- whatever the controller knows of belongs to the share or does not -/
structure Fair (share : Share) (mine : Ticket → Bool) (c : Controller) : Prop where
  consistent : c.tracker.Consistent
  timed : c.tracker.Timed
  split : c.tracker.Split share.keys
  registered : ∀ k r, c.tracker.Registered k r → r.Lies share mine (share.keys k)
  parks : c.Parks share mine
  stored : c.store.Sound ∧ share.Stores c.store

variable {share : Share} {mine : Ticket → Bool} {c d : Controller} {k : Key} {b : Bool}

namespace Mirrors

theorem group? (h : c.Mirrors share mine d) (hk : share.keys k = true) : c.group? k = d.group? k := by
  rw [Controller.group?, h.device]
  exact h.switch.group? hk

theorem mem_requested (h : c.Mirrors share mine d) (hk : share.keys k = true) : k ∈ c.requested ↔ k ∈ d.requested := by
  rw [← h.requested, List.mem_filter]
  exact (and_iff_left hk).symm

/-- some keys are no longer marked as requested, all of the share or all of others -/
theorem unmark (h : c.Mirrors share mine d) {q : Key → Bool} (hq : ∀ k, q k = false → share.keys k = b) :
    (c.requested.filter q).filter share.keys = if b then d.requested.filter q else d.requested := by
  rw [← h.requested, List.filter_filter]
  cases b with
  | true =>
    rw [if_pos rfl, List.filter_filter]
    exact List.filter_congr fun k _ => Bool.and_comm _ _
  | false =>
    refine List.filter_congr fun k _ => ?_
    cases hk : q k with
    | true => exact Bool.and_true _
    | false => rw [hq k hk, Bool.and_false]

theorem release (h : c.Mirrors share mine d) (k : Key) :
    (c.release k).Mirrors share mine (if share.keys k then d.release k else d) := by
  have hrequested : (c.requested.filter fun j => j ≠ k).filter share.keys =
      if share.keys k then d.requested.filter fun j => j ≠ k else d.requested :=
    h.unmark fun j hj => by rw [not_not.1 (of_decide_eq_false hj)]
  cases hk : share.keys k with
  | true =>
    rw [hk] at hrequested
    exact { h with requested := hrequested }
  | false =>
    rw [hk] at hrequested
    exact { h with requested := hrequested }

theorem answer (h : c.Mirrors share mine d) {ticket : Ticket} (hb : mine ticket = b) (outcome : Outcome) :
    (c.reply ticket outcome).Mirrors share mine (if b then d.reply ticket outcome else d) := by
  cases b with
  | true => exact { h with replies := by simp [reply, h.replies, hb] }
  | false => exact { h with replies := by simp [reply, h.replies, hb] }

/-! ### Work -/

theorem submit (h : c.Mirrors share mine d) (x : Descriptor) :
    Tracks share mine (c.submit x) (if share.keys x.key then d.submit x else (d, [])) := by
  cases hx : share.keys x.key with
  | true =>
    have hasked : (c.asked x).Mirrors share mine (d.asked x) :=
      { h with
        requested := by simp [asked, hx, h.requested]
        switch := h.switch.addGroup x }
    simp only [Controller.submit, h.mem_requested hx, h.group? hx, if_true]
    split_ifs
    · exact ⟨h, rfl⟩
    · exact ⟨h, by simp [Share.part, Work.key, hx]⟩
    · exact ⟨hasked, rfl⟩
  | false =>
    rcases c.submit_cases x with ⟨-, he⟩ | ⟨-, he⟩ | he <;> rw [he]
    · exact ⟨h, rfl⟩
    · exact ⟨h, by simp [Share.part, Work.key, hx]⟩
    · refine ⟨{ h with requested := ?_, switch := ?_ }, rfl⟩
      · simp [asked, hx, h.requested]
      · exact (Switch.Agrees.addGroup_other hx).trans h.switch

theorem act (h : c.Mirrors share mine d) (e : Element) :
    Tracks share mine (c.act e) (if share.keys e.descriptor.key then d.act e else (d, [])) := by
  unfold Controller.act
  by_cases hb : e.addBucket = true
  · simp only [if_pos hb]
    cases hk : share.keys e.descriptor.key with
    | true => exact ⟨{ h with switch := h.switch.addBuckets _ hk _ }, rfl⟩
    | false => exact ⟨{ h with switch := (Switch.Agrees.addBuckets_other _ hk _).trans h.switch }, rfl⟩
  · simp only [if_neg hb]
    exact h.submit e.descriptor

theorem extend (h : c.Mirrors share mine d) (hc : c.tracker.Consistent) {existing : Record} {a : Addition}
    (ha : a.Lies share mine b) (hown : existing.objective = a.objective.id) (hfits : existing.Fits) :
    Tracks share mine (c.extend existing a) (if b then d.extend existing a else (d, [])) := by
  obtain ⟨f, g, ht⟩ := h.tracker
  have hwait : ∀ e ∈ a.plan.elements, ∀ k ∈ e.waitOn, share.keys k = share.keys a.plan.topKey := fun e he k hk => by
    rw [ha.plan.top, ha.plan.elements e he k (List.mem_cons_of_mem _ hk)]
  have hready : ∀ t : Tracker, (t.registerAll a.plan.topKey a.plan.elements).2 =
      a.plan.elements.filter fun e => e.waitOn = [] := fun t => Tracker.ready_registerAll t _ _
  have hpart := Share.part_plan ha.plan (a.plan.elements.filter fun e => e.waitOn = []) fun e => List.mem_of_mem_filter
  have hobjective : share.objectives (existing.append a.plan.record).objective = b := by
    rw [← ha.objective, ← hown]
    rfl
  have hstore := h.store.put (hfits.append ha.fits) hobjective
  have hreplies := (h.answer ha.ticket (.installed a.plan.topId)).replies
  rw [extend_eq, extend_eq, hready, hready]
  cases b with
  | true =>
    have htracker := (ht.registerAll_mine ha.plan.top hwait).1
    exact ⟨{ h with tracker := ⟨f, g, htracker⟩, store := hstore, replies := hreplies }, hpart⟩
  | false =>
    obtain ⟨f', htracker⟩ := ht.registerAll_other hc ha.plan.top ha.distinct hwait
    exact ⟨{ h with tracker := ⟨f', g, htracker⟩, store := hstore, replies := hreplies }, hpart⟩

theorem recorded (h : c.Mirrors share mine d) {r : Registrant} (hr : r.Lies share mine b) (hk : share.keys k = b) :
    (c.recorded k r).Mirrors share mine (if b then d.recorded k r else d) := by
  have hobjective : share.objectives r.record.objective = b := by rw [hr.own, hr.objective]
  have hstore := h.store.put hr.fits hobjective
  have hreplies := (h.answer hr.ticket (.installed (((c.group? k).map (·.id)).getD r.topId))).replies
  cases b with
  | true =>
    rw [h.group? hk] at hreplies
    exact { h with store := hstore, replies := by rw [Controller.recorded, h.group? hk]; exact hreplies }
  | false => exact { h with store := hstore, replies := hreplies }

/-- a bucket is no longer put aside -/
theorem unpark (h : c.Mirrors share mine d) (n : UInt32) :
    { c with deferred := c.deferred.erase n }.Mirrors share mine
      (if share.objectives n then { d with deferred := d.deferred.erase n } else d) := by
  have herase := Registry.restrict_erase (p := share.objectives) (r := c.deferred) n
  rw [h.deferred] at herase
  cases hn : share.objectives n with
  | true =>
    rw [hn] at herase
    exact { h with deferred := herase }
  | false =>
    rw [hn] at herase
    exact { h with deferred := herase }

theorem parked (h : c.Mirrors share mine d) {n : UInt32} (hn : share.objectives n = true) :
    c.deferred.get? n = d.deferred.get? n := by
  rw [← h.deferred, Registry.get?_restrict hn]

theorem complete (h : c.Mirrors share mine d) (hc : c.tracker.Consistent) (hp : c.Parks share mine) {r : Registrant}
    (hr : r.Lies share mine b) (hk : share.keys k = b) :
    Tracks share mine (c.complete k r) (if b then d.complete k r else (d, [])) := by
  have hrecorded := h.recorded hr hk
  cases ha : c.deferred.get? r.objective.id with
  | none =>
    rw [complete_of_none ha]
    cases b with
    | true =>
      rw [if_pos rfl, complete_of_none (ha ▸ (h.parked hr.objective).symm)]
      exact ⟨hrecorded, rfl⟩
    | false => exact ⟨hrecorded, rfl⟩
  | some a =>
    obtain ⟨hown, hlies⟩ := hp _ a ha
    rw [hr.objective] at hlies
    have hunpark := hrecorded.unpark r.objective.id
    rw [hr.objective] at hunpark
    rw [complete_of_some ha]
    cases b with
    | true =>
      rw [if_pos rfl, complete_of_some (ha ▸ (h.parked hr.objective).symm)]
      exact hunpark.extend hc hlies (hr.own.trans hown.symm) hr.fits
    | false => exact hunpark.extend hc hlies (hr.own.trans hown.symm) hr.fits

/-- completing an objective puts no bucket aside -/
theorem complete_keeps (hc : c.tracker.Consistent) (hp : c.Parks share mine) (k : Key) (r : Registrant) :
    (c.complete k r).1.tracker.Consistent ∧ (c.complete k r).1.Parks share mine := by
  rcases c.complete_cases k r with ⟨a, ha, he⟩ | ⟨-, he⟩
  · rw [he, extend_eq]
    exact ⟨hc.registerAll _ _ (hp _ a ha).2.distinct, fun n b hb => hp n b (Registry.of_get?_erase hb).2⟩
  · rw [he]
    exact ⟨hc, hp⟩

theorem completeAll (h : c.Mirrors share mine d) (hc : c.tracker.Consistent) (hp : c.Parks share mine)
    {rs : List Registrant} (hr : ∀ r ∈ rs, r.Lies share mine b) (hk : share.keys k = b) :
    Tracks share mine (c.completeAll k rs) (if b then d.completeAll k rs else (d, [])) := by
  induction rs generalizing c d with
  | nil => cases b <;> exact ⟨h, rfl⟩
  | cons r rs ih =>
    obtain ⟨hone, hpart⟩ := h.complete hc hp (hr r List.mem_cons_self) hk
    obtain ⟨hc', hp'⟩ := complete_keeps hc hp k r
    obtain ⟨hrest, hothers⟩ := ih hone hc' hp' fun r' hr' => hr r' (List.mem_cons_of_mem r hr')
    cases b with
    | true => exact ⟨hrest, by simp only [Controller.completeAll, Share.part_append, hpart, hothers, if_true]⟩
    | false =>
      refine ⟨hrest, ?_⟩
      simp only [Controller.completeAll, Share.part_append, hpart, hothers]
      rfl

/-- elements wait for the key -/
theorem confirm_awaited (h : c.Mirrors share mine d) (hc : c.tracker.Consistent) (hs : c.tracker.Split share.keys)
    {ids : List Nat} (hg : c.tracker.groups.get? k = some ids) :
    Tracks share mine (c.confirm k) (if share.keys k then d.confirm k else (d, [])) := by
  obtain ⟨f, g, ht⟩ := h.tracker
  have hrelease := h.release k
  have hadvance := ht.advance hc hs hg
  have hpart : ∀ es : List Element, share.part (es.map .element) =
      (es.filter fun e => share.keys e.descriptor.key).map .element := fun es => List.filter_map
  rw [confirm_of_awaited hg]
  cases hk : share.keys k with
  | true =>
    rw [hk] at hadvance hrelease
    obtain ⟨js, hjs, hmirrors, hready⟩ := hadvance
    rw [if_pos rfl, confirm_of_awaited hjs]
    exact ⟨{ hrelease with tracker := ⟨f, g, hmirrors⟩ }, by rw [hpart, hready]⟩
  | false =>
    rw [hk] at hadvance hrelease
    obtain ⟨hmirrors, hready⟩ := hadvance
    exact ⟨{ hrelease with tracker := ⟨f, g, hmirrors⟩ }, by rw [hpart, hready]; rfl⟩

/-- nothing but objectives waits for the key -/
theorem confirm_registered (h : c.Mirrors share mine d) (hc : c.tracker.Consistent) (hp : c.Parks share mine)
    {rs : Registrants} (hr : ∀ r ∈ rs.list, r.Lies share mine (share.keys k)) (hg : c.tracker.groups.get? k = none)
    (ho : c.tracker.objectives.get? k = some rs) :
    Tracks share mine (c.confirm k) (if share.keys k then d.confirm k else (d, [])) := by
  obtain ⟨f, g, ht⟩ := h.tracker
  have hrelease := h.release k
  have hdischarge := ht.discharge k
  have hc' : (c.tracker.discharge k).Consistent := hc.congr rfl rfl rfl
  rw [confirm_of_registered hg ho]
  cases hk : share.keys k with
  | true =>
    rw [hk] at hr hrelease hdischarge
    have hg' : d.tracker.groups.get? k = none := Option.map_eq_none_iff.1 ((ht.groups hk).symm.trans hg)
    obtain ⟨rs', ho', rfl⟩ := Option.map_eq_some_iff.1 ((ht.objectives hk).symm.trans ho)
    have hmirrors : { c.release k with tracker := c.tracker.discharge k }.Mirrors share mine
        { d.release k with tracker := d.tracker.discharge k } := { hrelease with tracker := ⟨f, g, hdischarge⟩ }
    rw [if_pos rfl, confirm_of_registered hg' ho']
    exact hmirrors.completeAll hc' hp hr hk
  | false =>
    rw [hk] at hr hrelease hdischarge
    have hmirrors : { c.release k with tracker := c.tracker.discharge k }.Mirrors share mine d :=
      { hrelease with tracker := ⟨f, g, hdischarge⟩ }
    exact hmirrors.completeAll hc' hp hr hk

theorem confirm (h : c.Mirrors share mine d) (hc : c.tracker.Consistent) (hs : c.tracker.Split share.keys)
    (hr : ∀ k r, c.tracker.Registered k r → r.Lies share mine (share.keys k)) (hp : c.Parks share mine) (k : Key) :
    Tracks share mine (c.confirm k) (if share.keys k then d.confirm k else (d, [])) := by
  cases hg : c.tracker.groups.get? k with
  | some ids => exact h.confirm_awaited hc hs hg
  | none =>
    cases ho : c.tracker.objectives.get? k with
    | some rs => exact h.confirm_registered hc hp (fun r hmem => hr k r ⟨rs, ho, hmem⟩) hg ho
    | none =>
      have hrelease := h.release k
      rw [confirm_of_unknown hg ho]
      cases hk : share.keys k with
      | true =>
        obtain ⟨f, g, ht⟩ := h.tracker
        rw [hk] at hrelease
        rw [ht.groups hk, Option.map_eq_none_iff] at hg
        rw [ht.objectives hk, Option.map_eq_none_iff] at ho
        rw [if_pos rfl, confirm_of_unknown hg ho]
        exact ⟨hrelease, rfl⟩
      | false =>
        rw [hk] at hrelease
        exact ⟨hrelease, rfl⟩

theorem process (h : c.Mirrors share mine d) (hc : c.tracker.Consistent) (hs : c.tracker.Split share.keys)
    (hr : ∀ k r, c.tracker.Registered k r → r.Lies share mine (share.keys k)) (hp : c.Parks share mine) (w : Work) :
    Tracks share mine (c.process w) (if share.keys w.key then d.process w else (d, [])) := by
  cases w with
  | create x => exact h.submit x
  | element e => exact h.act e
  | resolve k => exact h.confirm hc hs hr hp k

/-! ### Giving up -/

theorem failed (h : c.Mirrors share mine d) {r : Registrant} (hr : r.Lies share mine b) :
    (c.failed r).Mirrors share mine (if b then d.failed r else d) := by
  obtain ⟨f, g, ht⟩ := h.tracker
  have hreplies := (h.answer hr.ticket (.failed .installationFailed)).replies
  have hrequested : (c.requested.filter fun k => k ∉ c.unclaimed r).filter share.keys =
      if b then d.requested.filter fun k => k ∉ c.unclaimed r else d.requested :=
    h.unmark fun k hk => hr.record k (List.mem_of_mem_filter (not_not.1 (of_decide_eq_false hk)))
  cases b with
  | true =>
    have hunclaimed : c.unclaimed r = d.unclaimed r :=
      List.filter_congr fun k hk => by rw [ht.isPending (hr.record k hk)]
    rw [hunclaimed] at hrequested
    exact { h with requested := by rw [Controller.failed, hunclaimed]; exact hrequested, replies := hreplies }
  | false => exact { h with requested := hrequested, replies := hreplies }

theorem abandonOne (h : c.Mirrors share mine d) (hp : c.Parks share mine) {r : Registrant}
    (hr : r.Lies share mine b) : (c.abandonOne r).Mirrors share mine (if b then d.abandonOne r else d) := by
  have hfailed := h.failed hr
  cases ha : c.deferred.get? r.objective.id with
  | none =>
    rw [abandonOne_of_none ha]
    cases b with
    | true =>
      rw [if_pos rfl, abandonOne_of_none (ha ▸ (h.parked hr.objective).symm)]
      exact hfailed
    | false => exact hfailed
  | some a =>
    obtain ⟨-, hlies⟩ := hp _ a ha
    rw [hr.objective] at hlies
    have hunpark := hfailed.unpark r.objective.id
    rw [hr.objective] at hunpark
    rw [abandonOne_of_some ha]
    cases b with
    | true =>
      rw [if_pos rfl, abandonOne_of_some (ha ▸ (h.parked hr.objective).symm)]
      exact hunpark.answer hlies.ticket _
    | false => exact hunpark.answer hlies.ticket _

theorem abandon (h : c.Mirrors share mine d) (hp : c.Parks share mine) {rs : List Registrant}
    (hr : ∀ r ∈ rs, r.Lies share mine (share.objectives r.objective.id)) :
    (c.abandon rs).Mirrors share mine (d.abandon (rs.filter fun r => share.objectives r.objective.id)) := by
  induction rs generalizing c d with
  | nil => exact h
  | cons r rs ih =>
    have hone := h.abandonOne hp (hr r List.mem_cons_self)
    have hp' : (c.abandonOne r).Parks share mine := by
      rcases c.abandonOne_cases r with ⟨a, -, he⟩ | ⟨-, he⟩ <;> rw [he]
      · exact fun n a ha => hp n a (Registry.of_get?_erase ha).2
      · exact hp
    have hrest := ih hone hp' fun r' hr' => hr r' (List.mem_cons_of_mem r hr')
    cases hb : share.objectives r.objective.id with
    | true =>
      rw [hb] at hrest
      rw [List.filter_cons, if_pos hb]
      exact hrest
    | false =>
      rw [hb] at hrest
      rw [List.filter_cons, hb]
      exact hrest

theorem expire (h : c.Mirrors share mine d) (hc : c.tracker.Consistent) (ht : c.tracker.Timed)
    (hs : c.tracker.Split share.keys) (hr : ∀ k r, c.tracker.Registered k r → r.Lies share mine (share.keys k))
    (hp : c.Parks share mine) (now : Nat) : (c.expire now).Mirrors share mine (d.expire now) := by
  obtain ⟨f, g, htracker⟩ := h.tracker
  -- whoever is given up elsewhere is not in the list that the smaller controller abandons
  obtain ⟨hmirrors, hgiven⟩ := htracker.expire hc hs ht now
  have hlies : ∀ given ∈ (c.tracker.expire now).2, ∀ r ∈ given.2, r.Lies share mine (share.keys given.1) :=
    fun given hmem r hmem' => hr _ r (Tracker.registered_expire hmem hmem')
  have hgone : ((c.tracker.expire now).2.flatMap Prod.snd).filter (fun r => share.objectives r.objective.id) =
      (d.tracker.expire now).2.flatMap Prod.snd := by
    rw [Share.filter_given fun given hmem r hmem' => (hlies given hmem r hmem').objective, hgiven]
  have hlies' : ∀ r ∈ (c.tracker.expire now).2.flatMap Prod.snd,
      r.Lies share mine (share.objectives r.objective.id) := by
    intro r hmem
    obtain ⟨given, hgiven, hmem⟩ := List.mem_flatMap.1 hmem
    have hside := hlies given hgiven r hmem
    rw [hside.objective]
    exact hside
  have hstart : { c with tracker := (c.tracker.expire now).1 }.Mirrors share mine
      { d with tracker := (d.tracker.expire now).1 } := { h with tracker := ⟨f, g, hmirrors⟩ }
  have hend := hstart.abandon hp hlies'
  rw [hgone] at hend
  rw [expire_eq, expire_eq]
  exact { hend with }

end Mirrors
end Controller

end FlowGroups
