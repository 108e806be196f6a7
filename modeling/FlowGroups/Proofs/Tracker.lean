/-
The tracker's registries agree with each other (`Consistent`): an element is listed under exactly those of its keys
that are not confirmed yet, and its count is their number. Every operation keeps this.

- `Linked`: what holds of any elements, also of such that name a key twice and are never counted down to nothing.
- `waiting_of_ready`: an element is handed out when the last of its keys is confirmed, not earlier.
- `Grounded`: a key that an element no longer waits for is one that `D` holds of. Read `D` as "is on the device";
  resolving a key keeps this if `D` holds of the key.
- `elements_registerAll`, `elements_advance`, `registrants_expire` and the like: what is registered is handed out,
  given up or still there, nothing twice.
-/
import FlowGroups.Pending.Tracker
import FlowGroups.Proofs.Registry

namespace FlowGroups.Tracker

/-- the ids of the elements that still wait for a key -/
def awaiting (t : Tracker) (k : Key) : List Nat := (t.groups.get? k).getD []

/-- the elements that wait, in the order they were registered -/
def elements (t : Tracker) : List Element := t.waiting.map (·.element)

/-- everybody who waits for an objective -/
def registrants (t : Tracker) : List Registrant := t.objectives.values.flatMap (·.list)

/-- does a registrant wait for this key? -/
def Registered (t : Tracker) (k : Key) (r : Registrant) : Prop := ∃ rs, t.objectives.get? k = some rs ∧ r ∈ rs.list

/-- ids name elements, and whatever is listed as awaited is awaited by an element that misses at least so many keys -/
structure Linked (t : Tracker) : Prop where
  unique : (t.waiting.map (·.id)).Nodup
  below : ∀ w ∈ t.waiting, w.id < t.nextId
  listed : ∀ k, ∀ id ∈ t.awaiting k, ∃ w ∈ t.waiting, w.id = id ∧ k ∈ w.element.waitOn
  enough : ∀ w ∈ t.waiting, (w.element.waitOn.filter fun k => w.id ∈ t.awaiting k).length ≤ w.remaining
  awaited : ∀ k ids, t.groups.get? k = some ids → ids ≠ []

structure Consistent (t : Tracker) : Prop where
  unique : (t.waiting.map (·.id)).Nodup
  below : ∀ w ∈ t.waiting, w.id < t.nextId
  distinct : ∀ w ∈ t.waiting, w.element.waitOn.Nodup
  listed : ∀ k, ∀ id ∈ t.awaiting k, ∃ w ∈ t.waiting, w.id = id ∧ k ∈ w.element.waitOn
  counted : ∀ w ∈ t.waiting, w.remaining = (w.element.waitOn.filter fun k => w.id ∈ t.awaiting k).length
  missing : ∀ w ∈ t.waiting, 0 < w.remaining
  awaited : ∀ k ids, t.groups.get? k = some ids → ids ≠ []

/-- keys that are not awaited any more satisfy `D` -/
def Grounded (D : Key → Prop) (t : Tracker) : Prop :=
  ∀ w ∈ t.waiting, ∀ k ∈ w.element.waitOn, w.id ∈ t.awaiting k ∨ D k

theorem linked_fresh (delay : Nat) : (fresh delay).Linked := by
  constructor <;> simp [fresh, awaiting]

theorem consistent_fresh (delay : Nat) : (fresh delay).Consistent := by
  constructor <;> simp [fresh, awaiting]

theorem Consistent.linked {t : Tracker} (h : t.Consistent) : t.Linked :=
  ⟨h.unique, h.below, h.listed, fun w hw => Nat.le_of_eq (h.counted w hw).symm, h.awaited⟩

theorem grounded_fresh (D : Key → Prop) (delay : Nat) : (fresh delay).Grounded D := by
  intro w hw
  simp [fresh] at hw

theorem Grounded.mono {D E : Key → Prop} {t : Tracker} (h : t.Grounded D) (hDE : ∀ k, D k → E k) : t.Grounded E :=
  fun w hw k hk => (h w hw k hk).imp_right (hDE k)

/-- objectives and times play no part -/
theorem Linked.congr {t s : Tracker} (h : t.Linked) (hw : s.waiting = t.waiting) (hg : s.groups = t.groups)
    (hn : s.nextId = t.nextId) : s.Linked := by
  have ha : ∀ k, s.awaiting k = t.awaiting k := fun k => by rw [awaiting, hg, awaiting]
  refine ⟨hw ▸ h.unique, ?_, ?_, ?_, hg ▸ h.awaited⟩
  · rw [hw, hn]; exact h.below
  · intro k id hid
    rw [ha] at hid
    rw [hw]; exact h.listed k id hid
  · rw [hw]
    intro w hm
    simp only [ha]
    exact h.enough w hm

theorem Consistent.congr {t s : Tracker} (h : t.Consistent) (hw : s.waiting = t.waiting) (hg : s.groups = t.groups)
    (hn : s.nextId = t.nextId) : s.Consistent := by
  have hl := h.linked.congr hw hg hn
  refine ⟨hl.unique, hl.below, hw ▸ h.distinct, hl.listed, ?_, hw ▸ h.missing, hl.awaited⟩
  rw [hw]
  intro w hm
  simp only [awaiting, hg]
  exact h.counted w hm

theorem Grounded.congr {D : Key → Prop} {t s : Tracker} (h : t.Grounded D) (hw : s.waiting = t.waiting)
    (hg : s.groups = t.groups) : s.Grounded D := by
  intro w hm k hk
  rw [awaiting, hg]
  rw [hw] at hm
  exact h w hm k hk

/-- an id names one element -/
theorem Linked.eq_of_id {t : Tracker} (h : t.Linked) {w v : Waiting} (hw : w ∈ t.waiting) (hv : v ∈ t.waiting)
    (hid : w.id = v.id) : w = v :=
  List.inj_on_of_nodup_map h.unique hw hv hid

theorem Consistent.eq_of_id {t : Tracker} (h : t.Consistent) {w v : Waiting} (hw : w ∈ t.waiting)
    (hv : v ∈ t.waiting) (hid : w.id = v.id) : w = v :=
  h.linked.eq_of_id hw hv hid

theorem Linked.mem_waitOn {t : Tracker} (h : t.Linked) {w : Waiting} (hw : w ∈ t.waiting) {k : Key}
    (hk : w.id ∈ t.awaiting k) : k ∈ w.element.waitOn := by
  obtain ⟨v, hv, hid, hkv⟩ := h.listed k w.id hk
  rw [h.eq_of_id hw hv hid.symm]
  exact hkv

theorem Consistent.mem_waitOn {t : Tracker} (h : t.Consistent) {w : Waiting} (hw : w ∈ t.waiting) {k : Key}
    (hk : w.id ∈ t.awaiting k) : k ∈ w.element.waitOn :=
  h.linked.mem_waitOn hw hk

/-- every element waits for something -/
theorem Consistent.exists_awaiting {t : Tracker} (h : t.Consistent) {w : Waiting} (hw : w ∈ t.waiting) :
    ∃ k ∈ w.element.waitOn, w.id ∈ t.awaiting k := by
  have hpos := h.missing w hw
  rw [h.counted w hw, List.length_pos_iff_exists_mem] at hpos
  obtain ⟨k, hk⟩ := hpos
  simp only [List.mem_filter, decide_eq_true_eq] at hk
  exact ⟨k, hk.1, hk.2⟩

/-! ## Registering -/

/-- the tracker with one more element, which waits for all of its keys -/
def enlist (t : Tracker) (e : Element) (owner : Key) : Tracker :=
  { t with
    waiting := t.waiting ++ [⟨t.nextId, e, e.waitOn.length, owner⟩]
    groups := e.waitOn.foldl (await t.nextId) t.groups
    nextId := t.nextId + 1 }

theorem registerElement_of_ne {t : Tracker} {e : Element} (owner : Key) (h : e.waitOn ≠ []) :
    t.registerElement e owner = (t.enlist e owner, none) := by
  rw [registerElement, if_neg h]
  rfl

theorem registerElement_of_eq {t : Tracker} {e : Element} (owner : Key) (h : e.waitOn = []) :
    t.registerElement e owner = (t, some e) := by
  rw [registerElement, if_pos h]

/-- what holds of the tracker, and once the element is enlisted if it has to wait, holds when it is registered -/
theorem registerElement_keeps {P : Tracker → Prop} {t : Tracker} {e : Element} {owner : Key}
    (henlist : e.waitOn ≠ [] → P (t.enlist e owner)) (h : P t) : P (t.registerElement e owner).1 := by
  by_cases he : e.waitOn = []
  · rw [registerElement_of_eq owner he]
    exact h
  · rw [registerElement_of_ne owner he]
    exact henlist he

theorem mem_await (id j : Nat) (g : Registry Key (List Nat)) (i k : Key) :
    j ∈ ((await id g i).get? k).getD [] ↔ j ∈ (g.get? k).getD [] ∨ (j = id ∧ k = i) := by
  simp only [await, Registry.get?_insert]
  by_cases hk : k = i
  · subst hk
    by_cases hid : id ∈ (g.get? k).getD []
    · simp only [if_true, hid, Option.getD_some, and_true]
      exact ⟨Or.inl, fun h => h.elim (fun h => h) fun h => h ▸ hid⟩
    · simp [hid]
  · simp [hk]

theorem mem_foldl_await (id j : Nat) (ks : List Key) (g : Registry Key (List Nat)) (k : Key) :
    j ∈ ((ks.foldl (await id) g).get? k).getD [] ↔ j ∈ (g.get? k).getD [] ∨ (j = id ∧ k ∈ ks) := by
  induction ks generalizing g with
  | nil => simp
  | cons i ks ih =>
    rw [List.foldl_cons, ih, mem_await, List.mem_cons]
    tauto

theorem foldl_await_ne_nil (id : Nat) (ks : List Key) (g : Registry Key (List Nat))
    (h : ∀ k ids, g.get? k = some ids → ids ≠ []) :
    ∀ k ids, (ks.foldl (await id) g).get? k = some ids → ids ≠ [] := by
  induction ks generalizing g with
  | nil => exact h
  | cons i ks ih =>
    apply ih
    intro k ids hk
    simp only [await, Registry.get?_insert] at hk
    split_ifs at hk with hki hid
    · cases hk
      exact List.ne_nil_of_mem hid
    · cases hk
      simp
    · exact h k ids hk

theorem mem_awaiting_enlist (t : Tracker) (e : Element) (owner k : Key) (id : Nat) :
    id ∈ (t.enlist e owner).awaiting k ↔ id ∈ t.awaiting k ∨ (id = t.nextId ∧ k ∈ e.waitOn) :=
  mem_foldl_await t.nextId id e.waitOn t.groups k

theorem Linked.mem_awaiting_enlist_of_mem {t : Tracker} (h : t.Linked) (e : Element) (owner k : Key) {w : Waiting}
    (hw : w ∈ t.waiting) : w.id ∈ (t.enlist e owner).awaiting k ↔ w.id ∈ t.awaiting k := by
  rw [mem_awaiting_enlist]
  have := h.below w hw
  exact ⟨fun h => h.elim id fun h => by omega, Or.inl⟩

theorem Consistent.mem_awaiting_enlist_of_mem {t : Tracker} (h : t.Consistent) (e : Element) (owner k : Key)
    {w : Waiting} (hw : w ∈ t.waiting) : w.id ∈ (t.enlist e owner).awaiting k ↔ w.id ∈ t.awaiting k :=
  h.linked.mem_awaiting_enlist_of_mem e owner k hw

/-- what waits once an element is enlisted -/
theorem mem_waiting_enlist {t : Tracker} {e : Element} {owner : Key} {w : Waiting} :
    w ∈ (t.enlist e owner).waiting ↔ w ∈ t.waiting ∨ w = ⟨t.nextId, e, e.waitOn.length, owner⟩ := by
  simp [enlist]

/-- a new element is listed under all of its keys -/
theorem filter_awaiting_enlist (t : Tracker) (e : Element) (owner : Key) :
    (e.waitOn.filter fun k => t.nextId ∈ (t.enlist e owner).awaiting k) = e.waitOn := by
  rw [List.filter_eq_self]
  intro k hk
  rw [decide_eq_true_eq, mem_awaiting_enlist]
  exact Or.inr ⟨rfl, hk⟩

theorem Linked.enlist {t : Tracker} (h : t.Linked) (e : Element) (owner : Key) : (t.enlist e owner).Linked := by
  refine ⟨?_, ?_, ?_, ?_, foldl_await_ne_nil _ _ _ h.awaited⟩
  · simp only [Tracker.enlist, List.map_append, List.map_cons, List.map_nil, List.nodup_append]
    refine ⟨h.unique, by simp, ?_⟩
    intro a ha b hb
    obtain ⟨w, hw, rfl⟩ := List.mem_map.1 ha
    have := h.below w hw
    simp only [List.mem_singleton] at hb
    omega
  · intro w hw
    rcases mem_waiting_enlist.1 hw with hw | rfl
    · exact Nat.lt_succ_of_lt (h.below w hw)
    · exact Nat.lt_succ_self _
  · intro k id hid
    rcases (mem_awaiting_enlist t e owner k id).1 hid with hid | ⟨rfl, hk⟩
    · obtain ⟨w, hw, hwid, hk⟩ := h.listed k id hid
      exact ⟨w, mem_waiting_enlist.2 (Or.inl hw), hwid, hk⟩
    · exact ⟨_, mem_waiting_enlist.2 (Or.inr rfl), rfl, hk⟩
  · intro w hw
    rcases mem_waiting_enlist.1 hw with hw | rfl
    · simp only [h.mem_awaiting_enlist_of_mem e owner _ hw]
      exact h.enough w hw
    · exact Nat.le_of_eq (congrArg List.length (filter_awaiting_enlist t e owner))

theorem Consistent.enlist {t : Tracker} (h : t.Consistent) {e : Element} (owner : Key) (hd : e.waitOn.Nodup)
    (hne : e.waitOn ≠ []) : (t.enlist e owner).Consistent := by
  have hl := h.linked.enlist e owner
  refine ⟨hl.unique, hl.below, ?_, hl.listed, ?_, ?_, hl.awaited⟩
  · intro w hw
    rcases mem_waiting_enlist.1 hw with hw | rfl
    · exact h.distinct w hw
    · exact hd
  · intro w hw
    rcases mem_waiting_enlist.1 hw with hw | rfl
    · simp only [h.mem_awaiting_enlist_of_mem e owner _ hw]
      exact h.counted w hw
    · exact (congrArg List.length (filter_awaiting_enlist t e owner)).symm
  · intro w hw
    rcases mem_waiting_enlist.1 hw with hw | rfl
    · exact h.missing w hw
    · exact List.length_pos_iff.2 hne

theorem Grounded.enlist {D : Key → Prop} {t : Tracker} (h : t.Grounded D) (e : Element) (owner : Key) :
    (t.enlist e owner).Grounded D := by
  intro w hw k hk
  rw [mem_awaiting_enlist]
  rcases mem_waiting_enlist.1 hw with hw | rfl
  · exact (h w hw k hk).imp_left Or.inl
  · exact Or.inl (Or.inr ⟨rfl, hk⟩)

/-! ### All elements of a plan -/

/-- registers some elements one after the other; the ones that wait for nothing are handed back -/
def registerAll (t : Tracker) (owner : Key) : List Element → Tracker × List Element
  | [] => (t, [])
  | e :: es =>
    let (t, ready) := t.registerElement e owner
    let (t, rest) := t.registerAll owner es
    (t, ready.toList ++ rest)

theorem registerAll_cons_of_ne {t : Tracker} {owner : Key} {e : Element} (es : List Element) (h : e.waitOn ≠ []) :
    t.registerAll owner (e :: es) = (t.enlist e owner).registerAll owner es := by
  simp [registerAll, registerElement_of_ne owner h]

theorem registerAll_cons_of_eq {t : Tracker} {owner : Key} {e : Element} (es : List Element) (h : e.waitOn = []) :
    t.registerAll owner (e :: es) = ((t.registerAll owner es).1, e :: (t.registerAll owner es).2) := by
  simp [registerAll, registerElement_of_eq owner h]

/-- what survives that one of these elements is enlisted survives that all of them are registered -/
theorem registerAll_keeps {P : Tracker → Prop} {owner : Key} {es : List Element}
    (henlist : ∀ s, ∀ e ∈ es, e.waitOn ≠ [] → P s → P (s.enlist e owner)) {t : Tracker} (h : P t) :
    P (t.registerAll owner es).1 := by
  induction es generalizing t with
  | nil => exact h
  | cons e es ih =>
    have hes : ∀ s, ∀ f ∈ es, f.waitOn ≠ [] → P s → P (s.enlist f owner) :=
      fun s f hf => henlist s f (List.mem_cons_of_mem e hf)
    by_cases he : e.waitOn = []
    · rw [registerAll_cons_of_eq es he]
      exact ih hes h
    · rw [registerAll_cons_of_ne es he]
      exact ih hes (henlist t e List.mem_cons_self he h)

/-- what is handed back are the elements that wait for nothing -/
theorem ready_registerAll (t : Tracker) (owner : Key) (es : List Element) :
    (t.registerAll owner es).2 = es.filter fun e => e.waitOn = [] := by
  induction es generalizing t with
  | nil => rfl
  | cons e es ih =>
    by_cases he : e.waitOn = []
    · rw [registerAll_cons_of_eq es he, ih]
      simp [he]
    · rw [registerAll_cons_of_ne es he, ih]
      simp [he]

theorem waitOn_of_mem_registerAll (t : Tracker) (owner : Key) (es : List Element) :
    ∀ e ∈ (t.registerAll owner es).2, e.waitOn = [] := by
  intro e he
  rw [ready_registerAll] at he
  simpa using (List.mem_filter.1 he).2

theorem Consistent.registerAll {t : Tracker} (h : t.Consistent) (owner : Key) (es : List Element)
    (hd : ∀ e ∈ es, e.waitOn.Nodup) : (t.registerAll owner es).1.Consistent :=
  registerAll_keeps (fun _ e he hne hs => hs.enlist owner (hd e he) hne) h

theorem Grounded.registerAll {D : Key → Prop} {t : Tracker} (h : t.Grounded D) (owner : Key) (es : List Element) :
    (t.registerAll owner es).1.Grounded D :=
  registerAll_keeps (P := Grounded D) (fun _ e _ _ hs => hs.enlist e owner) h

@[simp] theorem objectives_registerAll (t : Tracker) (owner : Key) (es : List Element) :
    (t.registerAll owner es).1.objectives = t.objectives :=
  registerAll_keeps (P := fun s => s.objectives = t.objectives) (fun _ _ _ _ hs => hs) rfl

/-- every element is handed back or waits, and whatever waited before still does -/
theorem mem_waiting_registerAll (t : Tracker) (owner : Key) (es : List Element) :
    (∀ w ∈ t.waiting, w ∈ (t.registerAll owner es).1.waiting) ∧
      ∀ e ∈ es, e ∈ (t.registerAll owner es).2 ∨
        ∃ w ∈ (t.registerAll owner es).1.waiting, w.element = e ∧ w.owner = owner := by
  induction es generalizing t with
  | nil => exact ⟨fun w hw => hw, by simp⟩
  | cons e es ih =>
    by_cases he : e.waitOn = []
    · rw [registerAll_cons_of_eq es he]
      obtain ⟨hold, hnew⟩ := ih t
      refine ⟨hold, fun f hf => ?_⟩
      rcases List.mem_cons.1 hf with rfl | hf
      · exact Or.inl List.mem_cons_self
      · exact (hnew f hf).imp_left (List.mem_cons_of_mem e)
    · rw [registerAll_cons_of_ne es he]
      obtain ⟨hold, hnew⟩ := ih (t.enlist e owner)
      refine ⟨fun w hw => hold w (List.mem_append_left _ hw), fun f hf => ?_⟩
      rcases List.mem_cons.1 hf with rfl | hf
      · exact Or.inr ⟨_, hold _ (List.mem_append_right _ List.mem_cons_self), rfl, rfl⟩
      · exact hnew f hf

/-- whatever waits afterwards waited before or is one of the elements -/
theorem of_mem_waiting_registerAll (t : Tracker) (owner : Key) (es : List Element) :
    ∀ w ∈ (t.registerAll owner es).1.waiting, w ∈ t.waiting ∨ (w.element ∈ es ∧ w.owner = owner) := by
  refine registerAll_keeps (P := fun s => ∀ w ∈ s.waiting, w ∈ t.waiting ∨ (w.element ∈ es ∧ w.owner = owner)) ?_
    fun w hw => Or.inl hw
  intro s e he _ hs w hw
  rcases mem_waiting_enlist.1 hw with hw | rfl
  · exact hs w hw
  · exact Or.inr ⟨he, rfl⟩

theorem elements_registerAll (t : Tracker) (owner : Key) (es : List Element) :
    ((t.registerAll owner es).2 ++ (t.registerAll owner es).1.elements).Perm (es ++ t.elements) := by
  induction es generalizing t with
  | nil => exact List.Perm.refl _
  | cons e es ih =>
    by_cases he : e.waitOn = []
    · rw [registerAll_cons_of_eq es he]
      exact (ih t).cons e
    · rw [registerAll_cons_of_ne es he]
      refine (ih (t.enlist e owner)).trans ?_
      simp only [elements, enlist, List.map_append, List.map_cons, List.map_nil, ← List.append_assoc]
      exact List.perm_append_singleton _ _

/-! ## Resolving -/

/-- the tracker when a key is confirmed that the elements with these ids waited for -/
def advance (t : Tracker) (k : Key) (ids : List Nat) : Tracker :=
  { t with
    waiting := (t.waiting.map (countDown ids)).filter fun w => !isReady ids w
    groups := t.groups.erase k }

/-- the elements that are ready then -/
def readyAfter (t : Tracker) (ids : List Nat) : List Element :=
  ((t.waiting.map (countDown ids)).filter (isReady ids)).map (·.element)

/-- the tracker when the objectives under a key are done with -/
def discharge (t : Tracker) (k : Key) : Tracker := { t with objectives := t.objectives.erase k }

theorem resolve_cases (t : Tracker) (k : Key) :
    (∃ ids, t.groups.get? k = some ids ∧ t.resolve k = (t.advance k ids, .advance (t.readyAfter ids))) ∨
      (∃ rs, t.groups.get? k = none ∧ t.objectives.get? k = some rs ∧
        t.resolve k = (t.discharge k, .complete rs.list)) ∨
      (t.groups.get? k = none ∧ t.objectives.get? k = none ∧ t.resolve k = (t, .noop)) := by
  unfold resolve
  cases hg : t.groups.get? k with
  | some ids => exact Or.inl ⟨ids, rfl, rfl⟩
  | none =>
    cases ho : t.objectives.get? k with
    | some rs => exact Or.inr (Or.inl ⟨rs, rfl, rfl, rfl⟩)
    | none => exact Or.inr (Or.inr ⟨rfl, rfl, rfl⟩)

/-- what holds of the tracker, and once it has advanced or the objectives under the key are done with -/
theorem resolve_keeps {P : Tracker → Prop} {t : Tracker} {k : Key}
    (hadvance : ∀ ids, t.groups.get? k = some ids → P (t.advance k ids)) (hdischarge : P (t.discharge k)) (h : P t) :
    P (t.resolve k).1 := by
  rcases resolve_cases t k with ⟨ids, hids, he⟩ | ⟨rs, -, -, he⟩ | ⟨-, -, he⟩
  · rw [he]
    exact hadvance ids hids
  · rw [he]
    exact hdischarge
  · rw [he]
    exact h

@[simp] theorem id_countDown (ids : List Nat) (w : Waiting) : (countDown ids w).id = w.id := by
  unfold countDown; split <;> rfl

@[simp] theorem element_countDown (ids : List Nat) (w : Waiting) : (countDown ids w).element = w.element := by
  unfold countDown; split <;> rfl

@[simp] theorem owner_countDown (ids : List Nat) (w : Waiting) : (countDown ids w).owner = w.owner := by
  unfold countDown; split <;> rfl

theorem isReady_of_not_mem {ids : List Nat} {w : Waiting} (h : w.id ∉ ids) :
    countDown ids w = w ∧ isReady ids w = false := by
  simp [countDown, isReady, h]

/-- elements that are not named all stay as they are -/
theorem filter_countDown_of_not_mem {ids : List Nat} {ws : List Waiting} (h : ∀ w ∈ ws, w.id ∉ ids) :
    (ws.map (countDown ids)).filter (fun w => !isReady ids w) = ws ∧
      (ws.map (countDown ids)).filter (isReady ids) = [] := by
  have hmap : ws.map (countDown ids) = ws := by
    calc ws.map (countDown ids)
        = ws.map id := List.map_congr_left fun w hw => (isReady_of_not_mem (h w hw)).1
      _ = ws := List.map_id ws
  rw [hmap, List.filter_eq_self, List.filter_eq_nil_iff]
  constructor
  · intro w hw
    simp [(isReady_of_not_mem (h w hw)).2]
  · intro w hw
    simp [(isReady_of_not_mem (h w hw)).2]

theorem awaiting_advance (t : Tracker) (k : Key) (ids : List Nat) (j : Key) :
    (t.advance k ids).awaiting j = if j = k then [] else t.awaiting j := by
  simp only [awaiting, advance, Registry.get?_erase]
  split <;> rfl

/-- one key fewer is wanted if the element waited for it, and as many as before if not -/
theorem length_filter_ne {β : Type} [DecidableEq β] (p : β → Prop) [DecidablePred p] (b : β) {l : List β}
    (hn : l.Nodup) (hb : p b → b ∈ l) :
    (l.filter fun x => p x ∧ x ≠ b).length = (l.filter fun x => p x).length - if p b then 1 else 0 := by
  have he : (l.filter fun x => p x ∧ x ≠ b) = (l.filter fun x => p x).erase b := by
    rw [(hn.filter _).erase_eq_filter, List.filter_filter]
    refine List.filter_congr fun x _ => ?_
    by_cases hp : p x <;> by_cases hx : x = b <;> simp [hp, hx]
  rw [he]
  split_ifs with hp
  · exact List.length_erase_of_mem (List.mem_filter.2 ⟨hb hp, by simpa using hp⟩)
  · rw [List.erase_of_not_mem (fun h => hp (by simpa using (List.mem_filter.1 h).2))]
    rfl

theorem Consistent.remaining_countDown {t : Tracker} (h : t.Consistent) {k : Key} {ids : List Nat}
    (hk : t.groups.get? k = some ids) {w : Waiting} (hw : w ∈ t.waiting) :
    (countDown ids w).remaining = (w.element.waitOn.filter fun j => w.id ∈ (t.advance k ids).awaiting j).length := by
  have hids : t.awaiting k = ids := by rw [awaiting, hk]; rfl
  have hf : (w.element.waitOn.filter fun j => w.id ∈ (t.advance k ids).awaiting j) =
      w.element.waitOn.filter fun j => w.id ∈ t.awaiting j ∧ j ≠ k := by
    refine List.filter_congr fun j _ => ?_
    rw [awaiting_advance]
    by_cases hj : j = k <;> simp [hj]
  rw [hf, length_filter_ne (fun j => w.id ∈ t.awaiting j) k (h.distinct w hw) (h.mem_waitOn hw), ← h.counted w hw, hids]
  unfold countDown
  split <;> simp

/-- an element that is counted down still misses as many keys as list it -/
theorem Linked.le_countDown {t : Tracker} (h : t.Linked) {k : Key} {ids : List Nat} (hk : t.groups.get? k = some ids)
    {w : Waiting} (hw : w ∈ t.waiting) :
    (w.element.waitOn.filter fun j => w.id ∈ (t.advance k ids).awaiting j).length ≤ (countDown ids w).remaining := by
  have hids : t.awaiting k = ids := by rw [awaiting, hk]; rfl
  have hless : (w.element.waitOn.filter fun j => w.id ∈ (t.advance k ids).awaiting j) =
      (w.element.waitOn.filter fun j => w.id ∈ t.awaiting j).filter fun j => j ≠ k := by
    rw [List.filter_filter]
    refine List.filter_congr fun j _ => ?_
    rw [awaiting_advance]
    by_cases hj : j = k <;> simp [hj]
  have henough := h.enough w hw
  rw [hless, countDown]
  split_ifs with hid
  · have hmem : k ∈ w.element.waitOn.filter fun j => w.id ∈ t.awaiting j :=
      List.mem_filter.2 ⟨h.mem_waitOn hw (hids ▸ hid), by simpa [hids] using hid⟩
    have hlt : ((w.element.waitOn.filter fun j => w.id ∈ t.awaiting j).filter fun j => j ≠ k).length <
        (w.element.waitOn.filter fun j => w.id ∈ t.awaiting j).length :=
      List.length_filter_lt_length_iff_exists.2 ⟨k, hmem, by simp⟩
    change _ ≤ w.remaining - 1
    omega
  · exact Nat.le_trans (List.length_filter_le _ _) henough

theorem Linked.exists_advance {t : Tracker} (h : t.Linked) {k : Key} {ids : List Nat}
    (hk : t.groups.get? k = some ids) {w : Waiting} (hw : w ∈ t.waiting) {j : Key} (hj : j ∈ w.element.waitOn)
    (ha : w.id ∈ (t.advance k ids).awaiting j) : countDown ids w ∈ (t.advance k ids).waiting := by
  refine List.mem_filter.2 ⟨List.mem_map_of_mem hw, ?_⟩
  have hpos : 0 < (countDown ids w).remaining := by
    refine Nat.lt_of_lt_of_le ?_ (h.le_countDown hk hw)
    rw [List.length_pos_iff_exists_mem]
    exact ⟨j, List.mem_filter.2 ⟨hj, by simpa using ha⟩⟩
  simp [isReady, Nat.ne_of_gt hpos]

theorem mem_waiting_advance {t : Tracker} {k : Key} {ids : List Nat} {v : Waiting}
    (hv : v ∈ (t.advance k ids).waiting) : ∃ w ∈ t.waiting, v = countDown ids w ∧ isReady ids v = false := by
  simp only [advance, List.mem_filter, List.mem_map, Bool.not_eq_true'] at hv
  obtain ⟨⟨w, hw, rfl⟩, hr⟩ := hv
  exact ⟨w, hw, rfl, hr⟩

theorem Linked.advance {t : Tracker} (h : t.Linked) {k : Key} {ids : List Nat} (hk : t.groups.get? k = some ids) :
    (t.advance k ids).Linked := by
  refine ⟨?_, ?_, ?_, ?_, ?_⟩
  · have hs : (t.advance k ids).waiting.Sublist (t.waiting.map (countDown ids)) := List.filter_sublist
    have hm : (t.waiting.map (countDown ids)).map (·.id) = t.waiting.map (·.id) := by simp [Function.comp_def]
    exact (hm ▸ h.unique).sublist (hs.map _)
  · intro v hv
    obtain ⟨w, hw, rfl, -⟩ := mem_waiting_advance hv
    rw [id_countDown]
    exact h.below w hw
  · intro j id hid
    have hid' : id ∈ t.awaiting j := by
      rw [awaiting_advance] at hid
      split_ifs at hid
      · cases hid
      · exact hid
    obtain ⟨w, hw, rfl, hj⟩ := h.listed j id hid'
    exact ⟨_, h.exists_advance hk hw hj hid, id_countDown _ _, by rwa [element_countDown]⟩
  · intro v hv
    obtain ⟨w, hw, rfl, -⟩ := mem_waiting_advance hv
    rw [id_countDown, element_countDown]
    exact h.le_countDown hk hw
  · intro j js hj
    exact h.awaited j js (Registry.of_get?_erase hj).2

theorem Consistent.advance {t : Tracker} (h : t.Consistent) {k : Key} {ids : List Nat}
    (hk : t.groups.get? k = some ids) : (t.advance k ids).Consistent := by
  have hl := h.linked.advance hk
  refine ⟨hl.unique, hl.below, ?_, hl.listed, ?_, ?_, hl.awaited⟩
  · intro v hv
    obtain ⟨w, hw, rfl, -⟩ := mem_waiting_advance hv
    rw [element_countDown]
    exact h.distinct w hw
  · intro v hv
    obtain ⟨w, hw, rfl, -⟩ := mem_waiting_advance hv
    rw [id_countDown, element_countDown]
    exact h.remaining_countDown hk hw
  · intro v hv
    obtain ⟨w, hw, rfl, hr⟩ := mem_waiting_advance hv
    simp only [isReady, id_countDown, Bool.and_eq_false_iff, decide_eq_false_iff_not, beq_eq_false_iff_ne] at hr
    rcases hr with hr | hr
    · have := h.missing w hw
      rw [countDown, if_neg hr]
      exact this
    · exact Nat.pos_of_ne_zero hr

theorem Grounded.advance {D : Key → Prop} {t : Tracker} (h : t.Grounded D) {k : Key} (ids : List Nat) (hD : D k) :
    (t.advance k ids).Grounded D := by
  intro v hv j hj
  obtain ⟨w, hw, rfl, -⟩ := mem_waiting_advance hv
  rw [element_countDown] at hj
  rw [awaiting_advance, id_countDown]
  by_cases hjk : j = k
  · exact Or.inr (hjk ▸ hD)
  · rw [if_neg hjk]
    exact h w hw j hj

/-- **Ready means that no other key is missing.** -/
theorem waiting_of_ready {t : Tracker} (h : t.Consistent) {k : Key} {ids : List Nat} (hk : t.groups.get? k = some ids)
    {e : Element} (he : e ∈ t.readyAfter ids) :
    ∃ w ∈ t.waiting, w.element = e ∧ ∀ j ∈ e.waitOn, w.id ∈ t.awaiting j → j = k := by
  simp only [readyAfter, List.mem_map, List.mem_filter] at he
  obtain ⟨v, ⟨⟨w, hw, rfl⟩, hr⟩, rfl⟩ := he
  refine ⟨w, hw, (element_countDown ids w).symm, fun j hj ha => ?_⟩
  simp only [isReady, id_countDown, Bool.and_eq_true, beq_iff_eq] at hr
  have hz := h.remaining_countDown hk hw
  rw [hr.2, eq_comm, List.length_eq_zero_iff, List.filter_eq_nil_iff] at hz
  rw [element_countDown] at hj
  have := hz j hj
  rw [awaiting_advance] at this
  by_contra hjk
  rw [if_neg hjk] at this
  simp [ha] at this

theorem Grounded.ready {D : Key → Prop} {t : Tracker} (h : t.Grounded D) (hc : t.Consistent) {k : Key}
    {ids : List Nat} (hk : t.groups.get? k = some ids) (hD : D k) :
    ∀ e ∈ t.readyAfter ids, ∀ j ∈ e.waitOn, D j := by
  intro e he j hj
  obtain ⟨w, hw, rfl, hlast⟩ := waiting_of_ready hc hk he
  rcases h w hw j hj with ha | hd
  · exact hlast j hj ha ▸ hD
  · exact hd

theorem elements_advance (t : Tracker) (k : Key) (ids : List Nat) :
    (t.readyAfter ids ++ (t.advance k ids).elements).Perm t.elements := by
  have hm : (t.waiting.map (countDown ids)).map (·.element) = t.elements := by
    simp [elements, Function.comp_def]
  rw [readyAfter, elements, advance, ← List.map_append, ← hm]
  exact (List.filter_append_perm _ _).map _

/-- an element that waits is handed out or goes on waiting -/
theorem mem_waiting_or_ready {t : Tracker} (k : Key) (ids : List Nat) {w : Waiting} (hw : w ∈ t.waiting) :
    w.element ∈ t.readyAfter ids ∨ ∃ v ∈ (t.advance k ids).waiting, v.element = w.element ∧ v.owner = w.owner := by
  have hm : countDown ids w ∈ t.waiting.map (countDown ids) := List.mem_map_of_mem hw
  by_cases hr : isReady ids (countDown ids w) = true
  · refine Or.inl (List.mem_map.2 ⟨_, List.mem_filter.2 ⟨hm, hr⟩, element_countDown ids w⟩)
  · refine Or.inr ⟨_, List.mem_filter.2 ⟨hm, ?_⟩, element_countDown ids w, owner_countDown ids w⟩
    simpa using hr

/-! ## Giving up -/

theorem mem_waiting_purge {t : Tracker} {owner : Key} {w : Waiting} :
    w ∈ (t.purge owner).waiting ↔ w ∈ t.waiting ∧ w.owner ≠ owner := by
  simp [purge]

theorem mem_awaiting_purge (t : Tracker) (owner k : Key) (id : Nat) :
    id ∈ (t.purge owner).awaiting k ↔
      id ∈ t.awaiting k ∧ ∀ w ∈ t.waiting, w.owner = owner → w.id = id → k ∉ w.element.waitOn := by
  simp only [awaiting, purge, Registry.get?_filterMap]
  cases t.groups.get? k with
  | none => simp
  | some ids =>
    simp only [Option.bind_some, Option.getD_some, strike]
    split_ifs with hl
    · simp only [List.filter_eq_nil_iff, Bool.not_eq_true', Bool.not_eq_false, List.any_eq_true, List.mem_filter,
        decide_eq_true_eq] at hl
      simp only [Option.getD_none, List.not_mem_nil, false_iff, not_and, not_forall]
      intro hid
      obtain ⟨w, ⟨hw, ho⟩, hwid, hk⟩ := hl id hid
      exact ⟨w, hw, ho, hwid, fun h => h hk⟩
    · simp only [Option.getD_some, List.mem_filter, Bool.not_eq_true', List.any_eq_false, decide_eq_true_eq, not_and]
      exact and_congr_right fun _ => ⟨fun h w hw ho hwid => h w ⟨hw, ho⟩ hwid, fun h w hw hwid => h w hw.1 hw.2 hwid⟩

theorem Linked.mem_awaiting_purge_of_mem {t : Tracker} (h : t.Linked) {owner : Key} (k : Key) {w : Waiting}
    (hw : w ∈ t.waiting) (ho : w.owner ≠ owner) : w.id ∈ (t.purge owner).awaiting k ↔ w.id ∈ t.awaiting k := by
  rw [mem_awaiting_purge]
  refine ⟨fun h => h.1, fun ha => ⟨ha, fun v hv hvo hid => ?_⟩⟩
  rw [h.eq_of_id hv hw hid] at hvo
  exact absurd hvo ho

theorem Consistent.mem_awaiting_purge_of_mem {t : Tracker} (h : t.Consistent) {owner : Key} (k : Key) {w : Waiting}
    (hw : w ∈ t.waiting) (ho : w.owner ≠ owner) : w.id ∈ (t.purge owner).awaiting k ↔ w.id ∈ t.awaiting k :=
  h.linked.mem_awaiting_purge_of_mem k hw ho

theorem Linked.purge {t : Tracker} (h : t.Linked) (owner : Key) : (t.purge owner).Linked := by
  refine ⟨?_, ?_, ?_, ?_, ?_⟩
  · exact h.unique.sublist (List.filter_sublist.map _)
  · intro w hw
    exact h.below w (mem_waiting_purge.1 hw).1
  · intro k id hid
    rw [mem_awaiting_purge] at hid
    obtain ⟨w, hw, rfl, hk⟩ := h.listed k id hid.1
    exact ⟨w, mem_waiting_purge.2 ⟨hw, fun ho => hid.2 w hw ho rfl hk⟩, rfl, hk⟩
  · intro w hw
    obtain ⟨hw, ho⟩ := mem_waiting_purge.1 hw
    simp only [h.mem_awaiting_purge_of_mem _ hw ho]
    exact h.enough w hw
  · intro k ids hk
    simp only [Tracker.purge, Registry.get?_filterMap, Option.bind_eq_some_iff, strike] at hk
    obtain ⟨old, -, hk⟩ := hk
    split_ifs at hk with hl
    exact Option.some.inj hk ▸ hl

theorem Consistent.purge {t : Tracker} (h : t.Consistent) (owner : Key) : (t.purge owner).Consistent := by
  have hl := h.linked.purge owner
  refine ⟨hl.unique, hl.below, ?_, hl.listed, ?_, ?_, hl.awaited⟩
  · intro w hw
    exact h.distinct w (mem_waiting_purge.1 hw).1
  · intro w hw
    obtain ⟨hw, ho⟩ := mem_waiting_purge.1 hw
    simp only [h.mem_awaiting_purge_of_mem _ hw ho]
    exact h.counted w hw
  · intro w hw
    exact h.missing w (mem_waiting_purge.1 hw).1

theorem Grounded.purge {D : Key → Prop} {t : Tracker} (h : t.Grounded D) (hc : t.Consistent) (owner : Key) :
    (t.purge owner).Grounded D := by
  intro w hw k hk
  obtain ⟨hw, ho⟩ := mem_waiting_purge.1 hw
  rw [hc.mem_awaiting_purge_of_mem k hw ho]
  exact h w hw k hk

theorem elements_purge_sublist (t : Tracker) (owner : Key) : (t.purge owner).elements.Sublist t.elements :=
  List.filter_sublist.map _

/-- the tracker with fewer registrants under a key -/
def retain (t : Tracker) (k : Key) (rs : Registrants) (left : List Registrant) : Tracker :=
  { t with objectives := t.objectives.insert k { rs with list := left } }

theorem expireEntry_cases (t : Tracker) (e : Expiry Key) :
    (∃ rs, t.objectives.get? e.key = some rs ∧
        t.expireEntry e = ((t.discharge e.key).purge e.key, some (e.key, rs.list))) ∨
      t.expireEntry e = (t, none) := by
  unfold expireEntry
  cases h : t.objectives.get? e.key with
  | none => exact Or.inr rfl
  | some rs =>
    by_cases hg : rs.generation = e.generation
    · exact Or.inl ⟨rs, rfl, by simp only [if_pos hg]; rfl⟩
    · exact Or.inr (by simp only [if_neg hg])

theorem takeAt_cases (t : Tracker) (n : UInt32) (k : Key) :
    t.takeAt n k = (t, []) ∨
      ∃ rs, t.objectives.get? k = some rs ∧
        (t.takeAt n k).2 = rs.list.filter (fun r => r.objective.id = n) ∧
        ((rs.list.filter (fun r => r.objective.id ≠ n) = [] ∧ (t.takeAt n k).1 = (t.discharge k).purge k) ∨
          (rs.list.filter (fun r => r.objective.id ≠ n) ≠ [] ∧
            (t.takeAt n k).1 = t.retain k rs (rs.list.filter fun r => r.objective.id ≠ n))) := by
  unfold takeAt
  cases h : t.objectives.get? k with
  | none => exact Or.inl rfl
  | some rs =>
    refine Or.inr ⟨rs, rfl, ?_, ?_⟩
    · dsimp only
      split <;> rfl
    · dsimp only
      by_cases hl : rs.list.filter (fun r => r.objective.id ≠ n) = []
      · exact Or.inl ⟨hl, by rw [if_pos hl]; rfl⟩
      · exact Or.inr ⟨hl, by rw [if_neg hl]; rfl⟩

/-- what survives the end of one objective, and does not look at the times, survives expiry -/
theorem expire_keeps {P : Tracker → Prop} (hdrop : ∀ t k, P t → P ((t.discharge k).purge k))
    (htimes : ∀ (t : Tracker) q, P t → P { t with expiry := q }) {t : Tracker} (h : P t) (now : Nat) :
    P (t.expire now).1 := by
  have hall : ∀ (es : List (Expiry Key)) (t : Tracker), P t → P (t.expireEntries es).1 := by
    intro es
    induction es with
    | nil => exact fun t ht => ht
    | cons e es ih =>
      intro t ht
      refine ih (t.expireEntry e).1 ?_
      rcases expireEntry_cases t e with ⟨rs, -, he⟩ | he
      · rw [he]; exact hdrop t e.key ht
      · rw [he]; exact ht
  exact hall _ _ (htimes t _ h)

theorem objectives_expire {t : Tracker} {now : Nat} {k : Key} {rs : Registrants}
    (h : (t.expire now).1.objectives.get? k = some rs) : t.objectives.get? k = some rs :=
  expire_keeps (P := fun s => ∀ k rs, s.objectives.get? k = some rs → t.objectives.get? k = some rs)
    (fun _ _ hs j rs hj => hs j rs (Registry.of_get?_erase hj).2) (fun _ _ hs => hs) (fun _ _ h => h) now k rs h

/-- where no objective waits, no element is dropped -/
theorem elements_expire_of_unregistered {t : Tracker} (h : ∀ k, t.objectives.get? k = none) (now : Nat) :
    (t.expire now).1.elements = t.elements := by
  have hall : ∀ (es : List (Expiry Key)) (s : Tracker), (∀ k, s.objectives.get? k = none) →
      (s.expireEntries es).1 = s := by
    intro es s hs
    induction es with
    | nil => rfl
    | cons e es ih =>
      rcases expireEntry_cases s e with ⟨rs, hrs, -⟩ | he
      · rw [hs] at hrs
        cases hrs
      · simp only [expireEntries, he, ih]
  have hexpire : (t.expire now).1 = { t with expiry := (t.expiry.popExpired now).2 } := hall _ _ h
  rw [hexpire]
  rfl

/-- what survives the end of one objective, or of some of its registrants, survives their removal -/
theorem takeObjective_keeps {P : Tracker → Prop} (hdrop : ∀ t k, P t → P ((t.discharge k).purge k))
    (hretain : ∀ (t : Tracker) k rs left, t.objectives.get? k = some rs → left.Sublist rs.list → left ≠ [] → P t →
      P (t.retain k rs left)) {t : Tracker} (h : P t) (n : UInt32) : P (t.takeObjective n).1 := by
  have hall : ∀ (ks : List Key) (t : Tracker), P t → P (t.takeFrom n ks).1 := by
    intro ks
    induction ks with
    | nil => exact fun t ht => ht
    | cons k ks ih =>
      intro t ht
      refine ih (t.takeAt n k).1 ?_
      rcases takeAt_cases t n k with he | ⟨rs, hk, -, ⟨-, he⟩ | ⟨hl, he⟩⟩
      · rw [he]; exact ht
      · rw [he]; exact hdrop t k ht
      · rw [he]; exact hretain t k rs _ hk List.filter_sublist hl ht
  exact hall _ _ h

/-! ## Registrants -/

theorem mem_registrants_iff {t : Tracker} {r : Registrant} : r ∈ t.registrants ↔ ∃ k, t.Registered k r := by
  simp only [registrants, List.mem_flatMap, Registry.mem_values_iff, Registered]
  constructor
  · rintro ⟨rs, ⟨k, hk⟩, hr⟩
    exact ⟨k, rs, hk, hr⟩
  · rintro ⟨k, rs, hk, hr⟩
    exact ⟨rs, ⟨k, hk⟩, hr⟩

theorem registrants_registerObjective (t : Tracker) (k : Key) (r : Registrant) (now : Nat) :
    (t.registerObjective k r now).registrants.Perm (r :: t.registrants) := by
  let old := ((t.objectives.get? k).map (·.list)).getD []
  have hold : t.registrants.Perm (old ++ (t.discharge k).registrants) := t.objectives.flatMap_values_perm k (·.list)
  calc
    List.Perm _ (old ++ [r] ++ (t.discharge k).registrants) :=
      t.objectives.flatMap_values_insert k ⟨t.nextGeneration, old ++ [r]⟩ (·.list)
    List.Perm _ (r :: (old ++ (t.discharge k).registrants)) :=
      (List.perm_append_singleton r old).append_right _
    List.Perm _ (r :: t.registrants) := hold.symm.cons r

theorem registered_registerObjective {t : Tracker} {k j : Key} {r s : Registrant} {now : Nat}
    (h : (t.registerObjective k r now).Registered j s) : t.Registered j s ∨ (j = k ∧ s = r) := by
  obtain ⟨rs, hj, hs⟩ := h
  simp only [registerObjective, Registry.get?_insert] at hj
  split_ifs at hj with hjk
  · cases hj
    rcases List.mem_append.1 hs with hs | hs
    · cases hk : t.objectives.get? k with
      | none => rw [hk] at hs; cases hs
      | some rs => rw [hk] at hs; exact Or.inl ⟨rs, hjk ▸ hk, hs⟩
    · exact Or.inr ⟨hjk, List.mem_singleton.1 hs⟩
  · exact Or.inl ⟨rs, hj, hs⟩

theorem registrants_discharge {t : Tracker} {k : Key} {rs : Registrants} (h : t.objectives.get? k = some rs) :
    t.registrants.Perm (rs.list ++ (t.discharge k).registrants) := by
  have := t.objectives.flatMap_values_perm k (·.list)
  rw [h] at this
  exact this

theorem Registered.of_discharge {t : Tracker} {k j : Key} {r : Registrant} (h : (t.discharge k).Registered j r) :
    j ≠ k ∧ t.Registered j r := by
  obtain ⟨rs, hj, hr⟩ := h
  obtain ⟨hjk, hj⟩ := Registry.of_get?_erase hj
  exact ⟨hjk, rs, hj, hr⟩

theorem registrants_retain (t : Tracker) (k : Key) (rs : Registrants) (left : List Registrant) :
    (t.retain k rs left).registrants.Perm (left ++ (t.discharge k).registrants) :=
  t.objectives.flatMap_values_insert k _ (·.list)

theorem Registered.of_retain {t : Tracker} {k j : Key} {rs : Registrants} {left : List Registrant} {r : Registrant}
    (hk : t.objectives.get? k = some rs) (hl : left.Sublist rs.list) (h : (t.retain k rs left).Registered j r) :
    t.Registered j r := by
  obtain ⟨ss, hj, hr⟩ := h
  simp only [retain, Registry.get?_insert] at hj
  split_ifs at hj with hjk
  · cases hj
    exact ⟨rs, hjk ▸ hk, hl.subset hr⟩
  · exact ⟨ss, hj, hr⟩

theorem registrants_expire (t : Tracker) (now : Nat) :
    t.registrants.Perm ((t.expire now).2.flatMap Prod.snd ++ (t.expire now).1.registrants) := by
  have hall : ∀ (es : List (Expiry Key)) (t : Tracker),
      t.registrants.Perm ((t.expireEntries es).2.flatMap Prod.snd ++ (t.expireEntries es).1.registrants) := by
    intro es
    induction es with
    | nil => exact fun t => List.Perm.refl _
    | cons e es ih =>
      intro t
      simp only [expireEntries, List.flatMap_append, List.append_assoc]
      rcases expireEntry_cases t e with ⟨rs, hk, he⟩ | he
      · rw [he]
        refine (registrants_discharge hk).trans ?_
        have := (ih ((t.discharge e.key).purge e.key)).append_left rs.list
        simp only [Option.toList_some, List.flatMap_cons, List.flatMap_nil, List.append_nil]
        exact this
      · rw [he]
        exact ih t
  exact hall _ { t with expiry := (t.expiry.popExpired now).2 }

theorem registrants_takeAt (t : Tracker) (n : UInt32) (k : Key) :
    t.registrants.Perm ((t.takeAt n k).2 ++ (t.takeAt n k).1.registrants) := by
  rcases takeAt_cases t n k with he | ⟨rs, hk, htaken, he⟩
  · rw [he]
    exact List.Perm.refl _
  · let mine := rs.list.filter fun r => r.objective.id = n
    let others := rs.list.filter fun r => r.objective.id ≠ n
    have hsplit : rs.list.Perm (mine ++ others) := by
      have h := List.filter_append_perm (fun r : Registrant => decide (r.objective.id = n)) rs.list
      simpa [mine, others] using h.symm
    -- whoever is not taken goes on waiting, under this key or under another
    have hleft : (others ++ (t.discharge k).registrants).Perm (t.takeAt n k).1.registrants := by
      rcases he with ⟨hl, he⟩ | ⟨-, he⟩
      · simp only [others, hl, he, List.nil_append]
        exact List.Perm.refl _
      · rw [he]
        exact (registrants_retain t k rs others).symm
    rw [htaken]
    calc
      List.Perm t.registrants (rs.list ++ (t.discharge k).registrants) := registrants_discharge hk
      List.Perm _ (mine ++ others ++ (t.discharge k).registrants) := hsplit.append_right _
      _ = mine ++ (others ++ (t.discharge k).registrants) := List.append_assoc _ _ _
      List.Perm _ (mine ++ (t.takeAt n k).1.registrants) := hleft.append_left mine

theorem registrants_takeObjective (t : Tracker) (n : UInt32) :
    t.registrants.Perm ((t.takeObjective n).2 ++ (t.takeObjective n).1.registrants) := by
  have hall : ∀ (ks : List Key) (t : Tracker),
      t.registrants.Perm ((t.takeFrom n ks).2 ++ (t.takeFrom n ks).1.registrants) := by
    intro ks
    induction ks with
    | nil => exact fun t => List.Perm.refl _
    | cons k ks ih =>
      intro t
      simp only [takeFrom, List.append_assoc]
      exact (registrants_takeAt t n k).trans ((ih _).append_left _)
  exact hall _ t

/-! ### Who is given up, and who is taken out -/

variable {t : Tracker} {k : Key}

/-- whoever is given up was registered under the key that is named -/
theorem registered_expire {now : Nat} {given : Key × List Registrant} (h : given ∈ (t.expire now).2) {r : Registrant}
    (hr : r ∈ given.2) : t.Registered given.1 r := by
  have hall : ∀ (es : List (Expiry Key)) (t : Tracker), given ∈ (t.expireEntries es).2 → t.Registered given.1 r := by
    intro es
    induction es with
    | nil => exact fun t h => absurd h List.not_mem_nil
    | cons e es ih =>
      intro t h
      simp only [Tracker.expireEntries, List.mem_append] at h
      rcases expireEntry_cases t e with ⟨rs, hrs, he⟩ | he
      · rw [he] at h
        rcases h with h | h
        · rw [List.mem_singleton.1 h] at hr ⊢
          exact ⟨rs, hrs, hr⟩
        · exact (ih _ h).of_discharge.2
      · rw [he] at h
        exact h.elim (fun h => absurd h List.not_mem_nil) (ih t)
  exact hall _ { t with expiry := (t.expiry.popExpired now).2 } h

theorem takeAt_of_some {n : UInt32} {rs : Registrants} (hk : t.objectives.get? k = some rs) :
    t.takeAt n k = (if rs.list.filter (fun r => r.objective.id ≠ n) = [] then (t.discharge k).purge k
      else t.retain k rs (rs.list.filter fun r => r.objective.id ≠ n), rs.list.filter fun r => r.objective.id = n) := by
  simp only [Tracker.takeAt, hk]
  split_ifs <;> rfl

theorem takeAt_of_none {n : UInt32} (hk : t.objectives.get? k = none) : t.takeAt n k = (t, []) := by
  simp only [Tracker.takeAt, hk]

theorem mem_keysOf {n : UInt32} : k ∈ t.keysOf n ↔ ∃ r, t.Registered k r ∧ r.objective.id = n := by
  simp only [Tracker.keysOf, List.mem_map, List.mem_filter, List.any_eq_true, beq_iff_eq]
  constructor
  · rintro ⟨e, ⟨he, r, hr, hn⟩, rfl⟩
    exact ⟨r, ⟨e.2, Registry.mem_entries_iff.1 he, hr⟩, hn⟩
  · rintro ⟨r, ⟨rs, hk, hr⟩, hn⟩
    exact ⟨(k, rs), ⟨Registry.mem_entries_iff.2 hk, r, hr, hn⟩, rfl⟩

theorem objective_takeFrom {n : UInt32} {r : Registrant} {ks : List Key} (h : r ∈ (t.takeFrom n ks).2) :
    r.objective.id = n := by
  induction ks generalizing t with
  | nil => exact absurd h List.not_mem_nil
  | cons k ks ih =>
    simp only [takeFrom, List.mem_append] at h
    rcases h with h | h
    · rcases t.takeAt_cases n k with he | ⟨rs, -, he, -⟩
      · rw [he] at h
        exact absurd h List.not_mem_nil
      · rw [he] at h
        simpa using (List.mem_filter.1 h).2
    · exact ih h

/-- whoever is taken out was registered, for this objective -/
theorem registered_of_taken {n : UInt32} {r : Registrant} (h : r ∈ (t.takeObjective n).2) :
    r.objective.id = n ∧ ∃ k, t.Registered k r := by
  have hmem : r ∈ t.registrants := (t.registrants_takeObjective n).symm.subset (List.mem_append_left _ h)
  exact ⟨objective_takeFrom h, mem_registrants_iff.1 hmem⟩

theorem hasObjective_iff {n : UInt32} : t.hasObjective n = true ↔ ∃ k r, t.Registered k r ∧ r.objective.id = n := by
  simp only [Tracker.hasObjective, List.any_eq_true, Registry.mem_values_iff, beq_iff_eq, Registered]
  constructor
  · rintro ⟨rs, ⟨k, hk⟩, r, hr, hn⟩
    exact ⟨k, r, ⟨rs, hk, hr⟩, hn⟩
  · rintro ⟨k, r, ⟨rs, hk, hr⟩, hn⟩
    exact ⟨rs, ⟨k, hk⟩, r, hr, hn⟩

end FlowGroups.Tracker
