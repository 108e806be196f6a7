/-
The order in which elements are acted on. Read `D` as "is on the device": as long as every key that is confirmed is one
that `D` holds of, an element reaches the queue only when `D` holds of everything it waits for (`Founded`).

- `element_waits_for_groups`: in a run without removals, where only groups that stand are reported added, whatever an
  element waits for stands when it is taken from the queue; and no element is taken more often than it was registered.
-/
import FlowGroups.Proofs.Run

namespace FlowGroups

/-- the element belongs to the plan of a request -/
def Asked (acc : List Request) (e : Element) : Prop := ∃ r ∈ acc, ∃ p, r.plan? = some p ∧ e ∈ p.elements

/-- the group is one that a request begins with -/
def AskedFirst (acc : List Request) (d : Descriptor) : Prop := ∃ r ∈ acc, ∃ p, r.plan? = some p ∧ d ∈ p.initial

theorem Asked.snoc {acc : List Request} {e : Element} (h : Asked acc e) (rs : List Request) : Asked (acc ++ rs) e := by
  obtain ⟨r, hr, hp⟩ := h
  exact ⟨r, List.mem_append_left rs hr, hp⟩

theorem AskedFirst.snoc {acc : List Request} {d : Descriptor} (h : AskedFirst acc d) (rs : List Request) :
    AskedFirst (acc ++ rs) d := by
  obtain ⟨r, hr, hp⟩ := h
  exact ⟨r, List.mem_append_left rs hr, hp⟩

/-- work that comes from requests, and whose time has come -/
def Work.Founded (D : Key → Prop) (acc : List Request) : Work → Prop
  | .create d => AskedFirst acc d
  | .element e => Asked acc e ∧ ∀ k ∈ e.waitOn, D k
  | .resolve k => D k

/-- a group that such work asks for is one of a plan -/
theorem Work.Founded.of_asks {D : Key → Prop} {acc : List Request} {w : Work} {d : Descriptor} (h : w.Founded D acc)
    (hd : Controller.Asks w d) : ∃ r ∈ acc, ∃ p, r.plan? = some p ∧ d ∈ p.descriptors := by
  rcases hd with rfl | ⟨e, rfl, -, rfl⟩
  · obtain ⟨r, hr, p, hp, hd⟩ := h
    exact ⟨r, hr, p, hp, List.mem_append_left _ hd⟩
  · obtain ⟨⟨r, hr, p, hp, he⟩, -⟩ := h
    exact ⟨r, hr, p, hp, List.mem_append_right _ (List.mem_map_of_mem he)⟩

/-- what waits and what is queued comes from requests, and nothing came to the queue before its time -/
structure Founded (D : Key → Prop) (device : DeviceId) (acc : List Request) (c : Controller) (ws : List Work) :
    Prop where
  home : c.device = device
  planned : ∀ r ∈ acc, r.Planned device
  deferred : ∀ n a, c.deferred.get? n = some a → .addBucket a ∈ acc
  consistent : c.tracker.Consistent
  grounded : c.tracker.Grounded D
  waiting : ∀ w ∈ c.tracker.waiting, Asked acc w.element
  work : ∀ w ∈ ws, w.Founded D acc

namespace Founded

variable {D E : Key → Prop} {device : DeviceId} {acc : List Request} {c d : Controller} {ws vs : List Work}

theorem mono (h : Founded D device acc c ws) (hDE : ∀ k, D k → E k) : Founded E device acc c ws := by
  refine ⟨h.home, h.planned, h.deferred, h.consistent, h.grounded.mono hDE, h.waiting, ?_⟩
  intro w hw
  have := h.work w hw
  cases w with
  | create d => exact this
  | element e => exact ⟨this.1, fun k hk => hDE k (this.2 k hk)⟩
  | resolve k => exact hDE k this

theorem snoc (h : Founded D device acc c ws) (rs : List Request) (hr : ∀ r ∈ rs, r.Planned device) :
    Founded D device (acc ++ rs) c ws := by
  refine ⟨h.home, ?_, ?_, h.consistent, h.grounded, ?_, ?_⟩
  · intro r hm
    exact (List.mem_append.1 hm).elim (h.planned r) (hr r)
  · intro n a ha
    exact List.mem_append_left rs (h.deferred n a ha)
  · intro w hw
    exact (h.waiting w hw).snoc rs
  · intro w hw
    have := h.work w hw
    cases w with
    | create d => exact this.snoc rs
    | element e => exact ⟨this.1.snoc rs, this.2⟩
    | resolve k => exact this

/-- only the device, the buckets put aside and the elements that wait matter -/
theorem congr (h : Founded D device acc c ws) (hd : d.device = c.device) (hf : d.deferred = c.deferred)
    (hw : d.tracker.waiting = c.tracker.waiting) (hg : d.tracker.groups = c.tracker.groups)
    (hn : d.tracker.nextId = c.tracker.nextId) (hv : ∀ w ∈ vs, w.Founded D acc) : Founded D device acc d vs :=
  ⟨hd.trans h.home, h.planned, hf ▸ h.deferred, h.consistent.congr hw hg hn, h.grounded.congr hw hg, hw ▸ h.waiting, hv⟩

/-- a group that such work asks for is one of this device -/
theorem home_of_asks (h : Founded D device acc c ws) {w : Work} (hw : w.Founded D acc) {g : Descriptor}
    (hg : Controller.Asks w g) : g.device = device := by
  obtain ⟨r, hr, p, hp, hmem⟩ := hw.of_asks hg
  exact ((h.planned r hr).wellFormed hp).home g hmem

theorem erased (h : Founded D device acc c ws) (n : UInt32) :
    Founded D device acc { c with deferred := c.deferred.erase n } ws :=
  { h with deferred := fun m a ha => h.deferred m a (Registry.of_get?_erase ha).2 }

theorem registered {r : Request} {p : Plan} (h : Founded D device acc c ws) (hr : r ∈ acc) (hp : r.plan? = some p)
    (owner : Key) :
    Founded D device acc { c with tracker := (c.tracker.registerAll owner p.elements).1 }
      (ws ++ ((c.tracker.registerAll owner p.elements).2.map .element ++ p.initial.map .create)) := by
  have hasked : ∀ e ∈ p.elements, Asked acc e := fun e he => ⟨r, hr, p, hp, he⟩
  have hdistinct := ((h.planned r hr).wellFormed hp).distinct
  refine ⟨h.home, h.planned, h.deferred, h.consistent.registerAll owner _ hdistinct, h.grounded.registerAll owner _,
    ?_, ?_⟩
  · intro w hw
    rcases Tracker.of_mem_waiting_registerAll _ _ _ w hw with hw | ⟨he, -⟩
    · exact h.waiting w hw
    · exact hasked _ he
  · intro w hw
    simp only [List.mem_append, List.mem_map] at hw
    rcases hw with hw | ⟨e, he, rfl⟩ | ⟨d, hd, rfl⟩
    · exact h.work w hw
    · -- an element that is handed back was registered just now, or waited before
      have hempty := Tracker.waitOn_of_mem_registerAll c.tracker owner p.elements e he
      have hmem := (Tracker.elements_registerAll c.tracker owner p.elements).subset (List.mem_append_left _ he)
      refine ⟨?_, by simp [hempty]⟩
      rcases List.mem_append.1 hmem with hmem | hmem
      · exact hasked e hmem
      · obtain ⟨v, hv, rfl⟩ := List.mem_map.1 hmem
        exact h.waiting v hv
    · exact ⟨r, hr, p, hp, hd⟩

theorem extend {a : Addition} (h : Founded D device acc c ws) (existing : Record) (ha : .addBucket a ∈ acc) :
    Founded D device acc (c.extend existing a).1 (ws ++ (c.extend existing a).2) := by
  have hreg := h.registered ha rfl a.plan.topKey
  rw [Controller.extend_eq]
  exact hreg.congr rfl rfl rfl rfl rfl hreg.work

theorem complete (h : Founded D device acc c ws) (k : Key) (r : Registrant) :
    Founded D device acc (c.complete k r).1 (ws ++ (c.complete k r).2) := by
  have hrec : Founded D device acc (c.recorded k r) ws := h.congr rfl rfl rfl rfl rfl h.work
  rcases c.complete_cases k r with ⟨a, ha, he⟩ | ⟨-, he⟩
  · rw [he]
    exact (hrec.erased r.objective.id).extend r.record (h.deferred _ a ha)
  · rw [he, List.append_nil]
    exact hrec

theorem abandonOne (h : Founded D device acc c ws) (r : Registrant) : Founded D device acc (c.abandonOne r) ws := by
  rcases c.abandonOne_cases r with ⟨a, -, he⟩ | ⟨-, he⟩
  · rw [he]
    exact (h.erased r.objective.id).congr rfl rfl rfl rfl rfl h.work
  · rw [he]
    exact h.congr rfl rfl rfl rfl rfl h.work

/-- a key that `D` holds of is confirmed -/
theorem confirm {k : Key} (h : Founded D device acc c ws) (hk : D k) :
    Founded D device acc (c.confirm k).1 (ws ++ (c.confirm k).2) := by
  rcases c.confirm_cases k with ⟨ids, hids, he⟩ | ⟨rs, -, -, he⟩ | he
  · rw [he]
    refine ⟨h.home, h.planned, h.deferred, h.consistent.advance hids, h.grounded.advance ids hk, ?_, ?_⟩
    · intro w hw
      obtain ⟨v, hv, rfl, -⟩ := Tracker.mem_waiting_advance hw
      rw [Tracker.element_countDown]
      exact h.waiting v hv
    · intro w hw
      rcases List.mem_append.1 hw with hw | hw
      · exact h.work w hw
      · obtain ⟨e, hready, rfl⟩ := List.mem_map.1 hw
        obtain ⟨v, hv, rfl, -⟩ := Tracker.waiting_of_ready h.consistent hids hready
        exact ⟨h.waiting v hv, h.grounded.ready h.consistent hids hk _ hready⟩
  · rw [he]
    refine Controller.completeAll_keeps (P := fun _ d vs => Founded D device acc d (ws ++ vs)) ?_ ?_
    · intro r rs d vs hd
      rw [← List.append_assoc]
      exact hd.complete k r
    · rw [List.append_nil]
      exact h.congr rfl rfl rfl rfl rfl h.work
  · rw [he, List.append_nil]
    exact h.congr rfl rfl rfl rfl rfl h.work

theorem process {w : Work} (h : Founded D device acc c (w :: ws)) (hD : ∀ k, c.Stands k → D k) :
    Founded D device acc (c.process w).1 (ws ++ (c.process w).2) := by
  have hw := h.work w List.mem_cons_self
  have hws : ∀ v ∈ ws, v.Founded D acc := fun v hv => h.work v (List.mem_cons_of_mem w hv)
  have hdone := c.performs w
  generalize c.process w = x at hdone ⊢
  cases hdone with
  | awaited | ask | addBuckets =>
    rw [List.append_nil]
    exact h.congr rfl rfl rfl rfl rfl hws
  | @found _ d _ hs =>
    refine h.congr rfl rfl rfl rfl rfl fun v hv => ?_
    rcases List.mem_append.1 hv with hv | hv
    · exact hws v hv
    · rw [List.mem_singleton.1 hv]
      exact hD d.key hs
  | confirm k => exact (h.congr rfl rfl rfl rfl rfl hws).confirm hw

theorem expire (h : Founded D device acc c []) (now : Nat) : Founded D device acc (c.expire now) [] := by
  have ht : (c.tracker.expire now).1.Consistent ∧ (c.tracker.expire now).1.Grounded D ∧
      ∀ w ∈ (c.tracker.expire now).1.waiting, Asked acc w.element := by
    refine Tracker.expire_keeps (P := fun t => t.Consistent ∧ t.Grounded D ∧ ∀ w ∈ t.waiting, Asked acc w.element)
      ?_ ?_ ⟨h.consistent, h.grounded, h.waiting⟩ now
    · rintro t k ⟨hc, hg, hw⟩
      have hc' : (t.discharge k).Consistent := hc.congr rfl rfl rfl
      have hg' : (t.discharge k).Grounded D := hg.congr rfl rfl
      exact ⟨hc'.purge k, hg'.purge hc' k, fun w hm => hw w (Tracker.mem_waiting_purge.1 hm).1⟩
    · rintro t q ⟨hc, hg, hw⟩
      exact ⟨hc.congr rfl rfl rfl, hg.congr rfl rfl, hw⟩
  refine Controller.expire_keeps (P := fun _ d => Founded D device acc d []) ?_ ?_ ?_
  · intro r rs d hd
    exact hd.abandonOne r
  · intro d hd
    exact hd.congr rfl rfl rfl rfl rfl hd.work
  · exact ⟨h.home, h.planned, h.deferred, ht.1, ht.2.1, ht.2.2, h.work⟩

theorem request {r : Request} (h : Founded D device acc c []) (hp : r.Planned device) (now : Nat)
    (hr : ¬(Move.handle (.request now r)).removes) :
    Founded D device (acc ++ [r]) (c.opening (.request now r)).1 (c.opening (.request now r)).2 := by
  have hr' : r ∈ acc ++ [r] := List.mem_concat_self
  have h' : Founded D device (acc ++ [r]) c [] := h.snoc [r] fun q hq => List.mem_singleton.1 hq ▸ hp
  have hopens := c.opens (.request now r)
  generalize c.opening (.request now r) = x at hopens ⊢
  cases hopens with
  | install _ ticket o p ht =>
    have htracked : Founded D device (acc ++ [.install ticket o p]) { c with
        tracker := c.tracker.registerObjective p.topKey ⟨ticket, o, p.record, p.topId⟩ now } [] :=
      h'.congr rfl rfl rfl rfl rfl h'.work
    subst ht
    exact htracked.registered hr' rfl p.topKey
  | @extend _ a existing =>
    have hext := h'.extend existing hr'
    rw [Controller.extend_eq] at hext
    exact hext
  | defer =>
    refine ⟨h'.home, h'.planned, ?_, h'.consistent, h'.grounded, h'.waiting, h'.work⟩
    intro n b hb
    rw [Registry.get?_insert] at hb
    split_ifs at hb
    · cases hb
      exact hr'
    · exact h'.deferred n b hb
  | remove => exact absurd rfl hr
  | refuseBucket | detach | refuseDetach => exact h'.congr rfl rfl rfl rfl rfl h'.work

/-- **One move.** A key that is reported must be one that `D` holds of, and `D` must hold of what stands. -/
theorem step {m : Moment} {move : Move} (h : Founded D device m.accepted m.controller m.queue)
    (ha : move.Admissible device m) (hr : ¬move.removes) (hD : ∀ k, m.controller.Stands k → D k)
    (he : ∀ k, move = .handle (.event ⟨.added, k⟩) → D k) :
    Founded D device (m.step move).accepted (m.step move).controller (m.step move).queue := by
  cases move with
  | work =>
    simp only [Moment.step, Moment.work]
    split
    · exact h.congr rfl rfl rfl rfl rfl h.work
    · rename_i w ws hq
      rw [hq] at h
      exact h.process hD
  | handle s =>
    rw [Moment.step]
    split_ifs with hidle
    · rw [hidle.1] at h
      cases s with
      | request now r => exact h.request ha.1 now hr
      | event e =>
        simp only [Moment.begin, Stimulus.request?, Option.toList_none, List.append_nil]
        obtain ⟨kind, k⟩ := e
        cases kind with
        | added =>
          refine h.congr rfl rfl rfl rfl rfl fun w hw => ?_
          rw [List.mem_singleton.1 hw]
          exact he k rfl
        | removed => exact h.congr rfl rfl rfl rfl rfl h.work
        | error => exact h
      | sweep =>
        simp only [Moment.begin, Stimulus.request?, Option.toList_none, List.append_nil]
        refine h.congr rfl rfl rfl rfl rfl fun w hw => ?_
        obtain ⟨k, hk, rfl⟩ := List.mem_map.1 hw
        exact hD k (Controller.stands_iff.2 (by simpa using (List.mem_filter.1 hk).2))
      | expire now =>
        simp only [Moment.begin, Stimulus.request?, Option.toList_none, List.append_nil]
        exact h.expire now
    · exact h
  | switch sm => exact h.congr rfl rfl rfl rfl rfl h.work

end Founded

theorem founded_start (D : Key → Prop) (device : DeviceId) (delay : Nat) (switch : Switch) (store : Store)
    (metrics : Metrics) : Founded D device [] (Controller.start device delay switch store metrics) [] := by
  refine ⟨rfl, by simp, ?_, Tracker.consistent_fresh delay, Tracker.grounded_fresh D delay, ?_, by simp⟩
  · rintro n a ha
    cases ha
  · intro w hw
    cases hw

/-! ## How often an element is taken -/

/-- the elements in a queue -/
def elementsOf (ws : List Work) : List Element := ws.filterMap Work.element?

@[simp] theorem elementsOf_nil : elementsOf [] = [] := rfl

@[simp] theorem elementsOf_append (ws vs : List Work) : elementsOf (ws ++ vs) = elementsOf ws ++ elementsOf vs :=
  List.filterMap_append

@[simp] theorem elementsOf_element (es : List Element) : elementsOf (es.map .element) = es := by
  simp [elementsOf, List.filterMap_map, Function.comp_def, Work.element?]

@[simp] theorem elementsOf_create (ds : List Descriptor) : elementsOf (ds.map .create) = [] := by
  simp [elementsOf, Work.element?]

@[simp] theorem elementsOf_resolve (ks : List Key) : elementsOf (ks.map .resolve) = [] := by
  simp [elementsOf, Work.element?]

theorem elementsOf_cons (w : Work) (ws : List Work) : elementsOf (w :: ws) = w.element?.toList ++ elementsOf ws := by
  cases w <;> rfl

theorem perm_registerAll (t : Tracker) (owner : Key) (p : Plan) :
    (elementsOf ((t.registerAll owner p.elements).2.map .element ++ p.initial.map .create) ++
      (t.registerAll owner p.elements).1.elements).Perm (p.elements ++ t.elements) := by
  rw [elementsOf_append, elementsOf_element, elementsOf_create, List.append_nil]
  exact t.elements_registerAll owner p.elements

/-- a part that is put into the middle of both sides -/
theorem perm_insert {β : Type} {new after es before : List β} (h : (new ++ after).Perm (es ++ before)) (mid : List β) :
    (new ++ (mid ++ after)).Perm (es ++ mid ++ before) :=
  calc
    List.Perm (new ++ (mid ++ after)) (mid ++ (new ++ after)) := List.perm_append_comm_assoc _ _ _
    List.Perm _ (mid ++ (es ++ before)) := h.append_left mid
    List.Perm _ (es ++ (mid ++ before)) := List.perm_append_comm_assoc _ _ _
    _ = es ++ mid ++ before := (List.append_assoc _ _ _).symm

namespace Controller

theorem perm_extend (c : Controller) (existing : Record) (a : Addition) :
    (elementsOf (c.extend existing a).2 ++ (c.extend existing a).1.tracker.elements).Perm
      (a.plan.elements ++ c.tracker.elements) := by
  rw [extend_eq]
  exact perm_registerAll c.tracker a.plan.topKey a.plan

/-- completed objectives register the elements of the buckets that wait for them -/
theorem perm_completeAll (c : Controller) (k : Key) (rs : List Registrant) :
    (elementsOf (c.completeAll k rs).2 ++ (c.completeAll k rs).1.tracker.elements).Perm
      (joining c.deferred rs ++ c.tracker.elements) := by
  refine completeAll_keeps (P := fun out d vs => (elementsOf vs ++ (joining d.deferred out ++ d.tracker.elements)).Perm
    (joining c.deferred rs ++ c.tracker.elements)) ?_ (List.Perm.refl _)
  intro r out d vs hd
  refine List.Perm.trans ?_ hd
  rw [elementsOf_append, List.append_assoc]
  refine List.Perm.append_left _ ?_
  rcases d.complete_cases k r with ⟨a, ha, he⟩ | ⟨hn, he⟩
  · have hext := perm_extend { d.recorded k r with deferred := d.deferred.erase r.objective.id } r.record a
    rw [he]
    simp only [joining, ha, extend_eq] at hext ⊢
    exact perm_insert hext _
  · rw [he]
    simp only [joining, hn]
    exact List.Perm.refl _

/-- an item of work hands out elements or leaves them waiting, and registers some -/
theorem perm_process (c : Controller) (w : Work) :
    (elementsOf (c.process w).2 ++ (c.process w).1.tracker.elements).Perm (w.registers c ++ c.tracker.elements) := by
  have hdone := c.performs w
  generalize c.process w = x at hdone ⊢
  cases hdone with
  | awaited hw | found hw | ask hw => rcases hw with rfl | ⟨e, rfl, -, -⟩ <;> exact List.Perm.refl _
  | addBuckets => exact List.Perm.refl _
  | confirm k =>
    simp only [confirm, Work.registers, release]
    rcases c.tracker.resolve_cases k with ⟨ids, -, he⟩ | ⟨rs, -, -, he⟩ | ⟨-, -, he⟩
    · simp only [he, elementsOf_element]
      exact c.tracker.elements_advance k ids
    · simp only [he]
      exact perm_completeAll _ k rs.list
    · simp only [he]
      exact List.Perm.refl _

/-- giving up drops elements and hands out none -/
theorem elements_expire (c : Controller) (now : Nat) :
    (c.expire now).tracker.elements.Sublist c.tracker.elements := by
  refine expire_keeps (P := fun _ d => d.tracker.elements.Sublist c.tracker.elements) (fun r rs d hd => ?_)
    (fun d hd => hd) ?_
  · rcases d.abandonOne_cases r with ⟨a, -, he⟩ | ⟨-, he⟩ <;> rw [he] <;> exact hd
  · exact Tracker.expire_keeps (P := fun t => t.elements.Sublist c.tracker.elements)
      (fun t k ht => (Tracker.elements_purge_sublist _ k).trans ht) (fun t q ht => ht) (List.Sublist.refl _) now

/-- a handler begins with elements it registers, or drops some -/
theorem count_opening (c : Controller) {s : Stimulus} (hr : ¬(Move.handle s).removes) (e : Element) :
    (elementsOf (c.opening s).2 ++ (c.opening s).1.tracker.elements).count e ≤
      (s.registers c ++ c.tracker.elements).count e := by
  have hkept : (elementsOf [] ++ c.tracker.elements).count e ≤ (s.registers c ++ c.tracker.elements).count e :=
    (List.sublist_append_right _ _).count_le e
  have hopens := c.opens s
  generalize c.opening s = x at hopens ⊢
  cases hopens with
  | install now ticket o p ht =>
    subst ht
    exact ((perm_registerAll _ p.topKey p).count_eq e).le
  | @extend now a existing hs =>
    simp only [Stimulus.registers, hs]
    exact ((perm_registerAll c.tracker a.plan.topKey a.plan).count_eq e).le
  | remove => exact absurd rfl hr
  | sweep =>
    rw [elementsOf_resolve]
    exact hkept
  | expire now => exact (c.elements_expire now).count_le e
  | defer | refuseBucket | detach | refuseDetach | added | removed | error => exact hkept

end Controller

/-- what was taken, what is queued and what waits was registered, each element as often as all three together -/
def Moment.Counted (m : Moment) : Prop :=
  ∀ e, m.taken.count e + (elementsOf m.queue).count e + m.controller.tracker.elements.count e ≤ m.registered.count e

theorem Moment.Counted.step {m : Moment} (h : m.Counted) {move : Move} (hr : ¬move.removes) :
    (m.step move).Counted := by
  intro e
  have he := h e
  cases move with
  | work =>
    simp only [Moment.step, Moment.work]
    split
    · exact he
    · rename_i w ws hq
      have hw := (m.controller.perm_process w).count_eq e
      simp only [hq, elementsOf_cons, elementsOf_append, List.count_append] at he hw ⊢
      omega
  | handle s =>
    rw [Moment.step]
    split_ifs with hidle
    · have hs := m.controller.count_opening hr e
      simp only [Moment.begin, hidle.1, elementsOf_nil, List.count_nil, List.count_append] at he hs ⊢
      omega
    · exact he
  | switch sm => exact he

/-! ## The order of installation -/

/-- **Nothing is asked for before its time.** In a run without removals in which only groups that stand are reported
added, whenever an element is next in the queue all groups that it waits for stand; and each element has been taken from
the queue at most as often as it was registered. -/
theorem element_waits_for_groups {device : DeviceId} {delay : Nat} {switch : Switch} {store : Store}
    {metrics : Metrics} {moves : List Move}
    (h : Allowed (fun m move => move.Admissible device m ∧ ¬move.removes ∧ move.Truthful m)
      (.start device delay switch store metrics) moves) :
    let m := (Moment.start device delay switch store metrics).run moves
    (∀ e rest, m.queue = .element e :: rest → ∀ k ∈ e.waitOn, (m.controller.group? k).isSome) ∧
      ∀ e, m.taken.count e ≤ m.registered.count e := by
  intro m
  have hm : Founded m.controller.Stands device m.accepted m.controller m.queue ∧ m.Counted := by
    refine h.keeps (P := fun m => Founded m.controller.Stands device m.accepted m.controller m.queue ∧ m.Counted)
      ?_ ⟨founded_start _ _ _ _ _ _, fun e => ?_⟩
    · rintro m move ⟨ha, hr, ht⟩ ⟨hf, hc⟩
      have hstands : ∀ k, m.controller.Stands k → (m.step move).controller.Stands k := fun k =>
        Moment.stands_step hr
      refine ⟨(hf.mono hstands).step ha hr hstands ?_, hc.step hr⟩
      rintro k rfl
      exact hstands k (ht k rfl)
    · simp [Moment.start, Controller.start, Tracker.fresh, Tracker.elements]
  refine ⟨fun e rest hq k hk => ?_, fun e => ?_⟩
  · have hw := hm.1.work (.element e) (hq ▸ List.mem_cons_self)
    exact Controller.stands_iff.1 (hw.2 k hk)
  · have := hm.2 e
    omega

/-- the L3 unicast group of the sample is asked for once its interface group stands -/
theorem element_of_sample_waits :
    (Sample.start.run Sample.readied).queue = [.element (Sample.element ⟨10⟩)] ∧
      ∀ k ∈ (Sample.element ⟨10⟩).waitOn, ((Sample.start.run Sample.readied).controller.group? k).isSome := by
  have hq : (Sample.start.run Sample.readied).queue = [.element (Sample.element ⟨10⟩)] := by decide +kernel
  have h : Allowed (fun m move => move.Admissible Sample.device m ∧ ¬move.removes ∧ move.Truthful m)
      Sample.start Sample.readied :=
    allowed_and.2 ⟨Sample.admissible _ (by decide +kernel), by decide +kernel⟩
  exact ⟨hq, (element_waits_for_groups h).1 _ _ hq⟩

end FlowGroups
