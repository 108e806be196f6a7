/-
Why nothing gets stuck. Every key that is awaited, and every top-level key that objectives wait for, is known to the
switch or will be asked for: by work in the queue, or by an element of the same plan that still waits itself
(`Tracker.Supplied`). Such an element waits for keys of lower layers only, so some awaited key is known already.

- `some_pending_key_is_known`: between handlers, if anything is pending then some pending key stands or is held.
-/
import FlowGroups.Proofs.Order

namespace FlowGroups

/-! ## Awaited keys -/

namespace Tracker

/-- the key satisfies `K`, or an element of the plan will create its group -/
def Comes (K : Key → Prop) (t : Tracker) (owner k : Key) : Prop :=
  K k ∨ ∃ w ∈ t.waiting, w.owner = owner ∧ w.element.Creates k

structure Supplied (K : Key → Prop) (t : Tracker) : Prop where
  awaited : ∀ w ∈ t.waiting, ∀ k ∈ w.element.waitOn, t.Comes K w.owner k
  topped : ∀ k rs, t.objectives.get? k = some rs → t.Comes K k k

variable {K L : Key → Prop} {t : Tracker}

theorem Comes.mono {owner k : Key} (h : t.Comes K owner k) (hKL : ∀ k, K k → L k) : t.Comes L owner k :=
  h.imp_left (hKL k)

theorem Supplied.mono (h : t.Supplied K) (hKL : ∀ k, K k → L k) : t.Supplied L := by
  refine ⟨?_, ?_⟩
  · intro w hw k hk
    exact (h.awaited w hw k hk).mono hKL
  · intro k rs hk
    exact (h.topped k rs hk).mono hKL

theorem Supplied.discharge (h : t.Supplied K) (k : Key) : (t.discharge k).Supplied K := by
  refine ⟨h.awaited, ?_⟩
  intro j rs hj
  exact h.topped j rs (Registry.of_get?_erase hj).2

/-- the elements of a plan go together, so nobody misses them -/
theorem Supplied.drop (h : t.Supplied K) (k : Key) : ((t.discharge k).purge k).Supplied K := by
  have hstay : ∀ owner j, owner ≠ k → t.Comes K owner j → ((t.discharge k).purge k).Comes K owner j := by
    rintro owner j ho (hj | ⟨w, hw, rfl, hc⟩)
    · exact Or.inl hj
    · exact Or.inr ⟨w, mem_waiting_purge.2 ⟨hw, ho⟩, rfl, hc⟩
  refine ⟨?_, ?_⟩
  · intro w hw j hj
    obtain ⟨hw, ho⟩ := mem_waiting_purge.1 hw
    exact hstay w.owner j ho (h.awaited w hw j hj)
  · intro j rs hj
    obtain ⟨hjk, hj⟩ := Registry.of_get?_erase hj
    exact hstay j j hjk (h.topped j rs hj)

/-- elements that are ready no longer wait; what they create has to satisfy `L` from now on -/
theorem Supplied.advance (h : t.Supplied K) (hKL : ∀ k, K k → L k) (k : Key) (ids : List Nat)
    (hready : ∀ e ∈ t.readyAfter ids, ∀ j, e.Creates j → L j) : (t.advance k ids).Supplied L := by
  have hstay : ∀ owner j, t.Comes K owner j → (t.advance k ids).Comes L owner j := by
    rintro owner j (hj | ⟨w, hw, rfl, hc⟩)
    · exact Or.inl (hKL j hj)
    · rcases mem_waiting_or_ready k ids hw with he | ⟨v, hv, he, ho⟩
      · exact Or.inl (hready _ he j hc)
      · exact Or.inr ⟨v, hv, ho, he ▸ hc⟩
  refine ⟨?_, ?_⟩
  · intro v hv j hj
    obtain ⟨w, hw, rfl, -⟩ := mem_waiting_advance hv
    rw [element_countDown] at hj
    rw [owner_countDown]
    exact hstay w.owner j (h.awaited w hw j hj)
  · intro j rs hj
    exact hstay j j (h.topped j rs hj)

/-- what a plan creates comes once its elements are registered -/
theorem comes_registerAll {owner : Key} {p : Plan} (hinit : ∀ d ∈ p.initial, L d.key)
    (hready : ∀ e ∈ (t.registerAll owner p.elements).2, ∀ j, e.Creates j → L j) {k : Key} (hk : p.Creates k) :
    (t.registerAll owner p.elements).1.Comes L owner k := by
  rcases hk with ⟨d, hd, rfl⟩ | ⟨e, he, hc⟩
  · exact Or.inl (hinit d hd)
  · rcases (mem_waiting_registerAll t owner p.elements).2 e he with hr | ⟨w, hw, rfl, ho⟩
    · exact Or.inl (hready e hr k hc)
    · exact Or.inr ⟨w, hw, ho, hc⟩

/-- a plan is registered; its top-level key may have got registrants just before -/
theorem Supplied.registerAll {device : DeviceId} {p : Plan} {top : Key} (hKL : ∀ k, K k → L k)
    (hawaited : ∀ w ∈ t.waiting, ∀ k ∈ w.element.waitOn, t.Comes K w.owner k)
    (htopped : ∀ k rs, t.objectives.get? k = some rs → t.Comes K k k ∨ (k = top ∧ p.Creates top))
    (hp : p.WellFormed device) (hinit : ∀ d ∈ p.initial, L d.key)
    (hready : ∀ e ∈ (t.registerAll top p.elements).2, ∀ j, e.Creates j → L j) :
    (t.registerAll top p.elements).1.Supplied L := by
  have hstay : ∀ o k, t.Comes K o k → (t.registerAll top p.elements).1.Comes L o k := by
    rintro o k (hk | ⟨w, hw, ho, hc⟩)
    · exact Or.inl (hKL k hk)
    · exact Or.inr ⟨w, (mem_waiting_registerAll t top p.elements).1 w hw, ho, hc⟩
  refine ⟨?_, ?_⟩
  · intro w hw k hk
    rcases of_mem_waiting_registerAll t top p.elements w hw with hw | ⟨he, ho⟩
    · exact hstay w.owner k (hawaited w hw k hk)
    · rw [ho]
      exact comes_registerAll hinit hready (hp.supplied _ he k hk)
  · intro k rs hk
    rw [objectives_registerAll] at hk
    rcases htopped k rs hk with hc | ⟨rfl, hc⟩
    · exact hstay k k hc
    · exact comes_registerAll hinit hready hc

end Tracker

/-! ## Keys that will be asked for -/

/-- does an item of work ask for the group under a key? -/
def Work.Makes (k : Key) : Work → Prop
  | .create d => d.key = k
  | .element e => e.Creates k
  | .resolve _ => False

/-- it asks for one group -/
theorem Controller.Asks.eq_of_makes {w : Work} {d : Descriptor} (h : Controller.Asks w d) {k : Key} (hk : w.Makes k) :
    k = d.key := by
  rcases h with rfl | ⟨e, rfl, -, rfl⟩
  · exact hk.symm
  · exact hk.2.symm

/-- the key is known to the switch, or queued work asks for its group -/
def Controller.Sends (c : Controller) (ws : List Work) (k : Key) : Prop := c.Knows k ∨ ∃ w ∈ ws, w.Makes k

theorem Controller.Sends.append {c : Controller} {ws : List Work} {k : Key} (h : c.Sends ws k) (vs : List Work) :
    c.Sends (ws ++ vs) k := by
  rcases h with hk | ⟨w, hw, hm⟩
  · exact Or.inl hk
  · exact Or.inr ⟨w, List.mem_append_left vs hw, hm⟩

theorem Controller.sends_nil {c : Controller} {k : Key} : c.Sends [] k ↔ c.Knows k := by
  simp [Controller.Sends]

structure Provided (device : DeviceId) (acc : List Request) (c : Controller) (ws : List Work) : Prop
    extends Founded (fun _ => True) device acc c ws where
  requested : ∀ k ∈ c.requested, c.Knows k
  supplied : c.tracker.Supplied (c.Sends ws)

namespace Provided

variable {device : DeviceId} {acc : List Request} {c d : Controller} {ws vs : List Work}

/-- everything stays but the groups, of which none is forgotten, and the queue, of which nothing is lost -/
theorem of_groups (h : Provided device acc c ws) (hf : Founded (fun _ => True) device acc d vs)
    (ht : d.tracker = c.tracker) (hr : ∀ k ∈ d.requested, d.Knows k) (hs : ∀ k, c.Sends ws k → d.Sends vs k) :
    Provided device acc d vs :=
  ⟨hf, hr, ht ▸ h.supplied.mono hs⟩

theorem extend {existing : Record} {a : Addition} (h : Provided device acc c ws) (ha : .addBucket a ∈ acc) :
    Provided device acc (c.extend existing a).1 (ws ++ (c.extend existing a).2) := by
  have hf := h.toFounded.extend existing ha
  rw [Controller.extend_eq] at hf ⊢
  refine ⟨hf, h.requested, Tracker.Supplied.registerAll (fun k hk => hk.append _) h.supplied.awaited
    (fun k rs hk => Or.inl (h.supplied.topped k rs hk)) ((h.planned _ ha).wellFormed rfl) ?_ ?_⟩
  · intro d hd
    exact Or.inr ⟨.create d, List.mem_append_right _ (List.mem_append_right _ (List.mem_map_of_mem hd)), rfl⟩
  · intro e he j hj
    exact Or.inr ⟨.element e, List.mem_append_right _ (List.mem_append_left _ (List.mem_map_of_mem he)), hj⟩

theorem complete (h : Provided device acc c ws) (k : Key) (r : Registrant) :
    Provided device acc (c.complete k r).1 (ws ++ (c.complete k r).2) := by
  have hrec : Founded (fun _ => True) device acc (c.recorded k r) ws :=
    h.toFounded.congr rfl rfl rfl rfl rfl h.work
  rcases c.complete_cases k r with ⟨a, ha, he⟩ | ⟨-, he⟩
  · have her : Provided device acc { c.recorded k r with deferred := c.deferred.erase r.objective.id } ws :=
      ⟨hrec.erased r.objective.id, h.requested, h.supplied⟩
    rw [he]
    exact her.extend (h.deferred _ a ha)
  · rw [he, List.append_nil]
    exact ⟨hrec, h.requested, h.supplied⟩

theorem confirm (h : Provided device acc c ws) (k : Key) :
    Provided device acc (c.confirm k).1 (ws ++ (c.confirm k).2) := by
  have hf := h.toFounded.confirm (k := k) trivial
  have hsame := c.same_confirm k
  have hr : ∀ j ∈ (c.confirm k).1.requested, (c.confirm k).1.Knows j := by
    intro j hj
    exact (hsame.knows j).2 (h.requested j (hsame.requested j hj))
  rcases c.confirm_cases k with ⟨ids, -, he⟩ | ⟨rs, -, -, he⟩ | he
  · rw [he] at hf hr ⊢
    refine ⟨hf, hr, h.supplied.advance (fun j hj => hj.append _) k ids ?_⟩
    intro e hready j hj
    exact Or.inr ⟨.element e, List.mem_append_right _ (List.mem_map_of_mem hready), hj⟩
  · rw [he]
    refine Controller.completeAll_keeps (P := fun _ d vs => Provided device acc d (ws ++ vs)) ?_ ?_
    · intro r rs d vs hd
      rw [← List.append_assoc]
      exact hd.complete k r
    · rw [List.append_nil]
      refine ⟨h.toFounded.congr rfl rfl rfl rfl rfl h.work, ?_, h.supplied.discharge k⟩
      intro j hj
      exact h.requested j (List.mem_of_mem_filter hj)
  · rw [he, List.append_nil] at hf ⊢
    exact ⟨hf, fun j hj => h.requested j (List.mem_of_mem_filter hj), h.supplied⟩

/-- an item of work that asks for a group, when the group is known afterwards -/
theorem sends_tail {w : Work} (hk : ∀ k, c.Knows k → d.Knows k) (hw : ∀ k, w.Makes k → d.Knows k) (k : Key)
    (h : c.Sends (w :: ws) k) : d.Sends (ws ++ vs) k := by
  rcases h with h | ⟨v, hv, hm⟩
  · exact Or.inl (hk k h)
  · rcases List.mem_cons.1 hv with rfl | hv
    · exact Or.inl (hw k hm)
    · exact Or.inr ⟨v, List.mem_append_left vs hv, hm⟩

theorem process {w : Work} (h : Provided device acc c (w :: ws)) :
    Provided device acc (c.process w).1 (ws ++ (c.process w).2) := by
  have hf := h.toFounded.process fun _ _ => trivial
  have hw := h.work w List.mem_cons_self
  have hdone := c.performs w
  generalize c.process w = x at hf hdone ⊢
  cases hdone with
  | awaited hasks hr =>
    exact h.of_groups hf rfl h.requested (sends_tail (fun _ hk => hk) fun k hk => hasks.eq_of_makes hk ▸ h.requested _ hr)
  | found hasks hs =>
    exact h.of_groups hf rfl h.requested (sends_tail (fun _ hk => hk) fun k hk => hasks.eq_of_makes hk ▸ hs.knows)
  | @ask _ e hasks =>
    have hhome : e.device = c.device := (h.toFounded.home_of_asks hw hasks).trans h.home.symm
    have hknows := fun k => Controller.knows_asked (c := c) hhome (k := k)
    refine h.of_groups hf rfl (fun k hk => ?_) (sends_tail (fun k hk => (hknows k).2 (Or.inl hk)) fun k hk =>
      (hknows k).2 (Or.inr (hasks.eq_of_makes hk)))
    rcases List.mem_cons.1 hk with rfl | hk
    · exact (hknows _).2 (Or.inr rfl)
    · exact (hknows k).2 (Or.inl (h.requested k hk))
  | addBuckets hb =>
    refine h.of_groups hf rfl (fun k hk => ?_) (sends_tail (fun k hk => ?_) fun k hk => ?_)
    · exact ((c.same_editBuckets _ _ _ _).knows k).2 (h.requested k hk)
    · exact ((c.same_editBuckets _ _ _ _).knows k).2 hk
    · exact absurd (hk.1.symm.trans hb) Bool.false_ne_true
  | confirm k =>
    have h' : Provided device acc c ws := by
      have hws : ∀ v ∈ ws, v.Founded (fun _ => True) acc := fun v hv => h.work v (List.mem_cons_of_mem _ hv)
      refine ⟨h.toFounded.congr rfl rfl rfl rfl rfl hws, h.requested, h.supplied.mono ?_⟩
      intro j hj
      rcases hj with hj | ⟨v, hv, hm⟩
      · exact Or.inl hj
      · rcases List.mem_cons.1 hv with rfl | hv
        · exact hm.elim
        · exact Or.inr ⟨v, hv, hm⟩
    exact h'.confirm k

theorem expire (h : Provided device acc c []) (now : Nat) : Provided device acc (c.expire now) [] := by
  have hsame := c.same_expire now
  have hsup : (c.tracker.expire now).1.Supplied (c.Sends []) :=
    Tracker.expire_keeps (P := fun t => t.Supplied (c.Sends [])) (fun t k ht => ht.drop k)
      (fun t q ht => ⟨ht.awaited, ht.topped⟩) h.supplied now
  have ht : (c.expire now).tracker = (c.tracker.expire now).1 := by
    refine Controller.expire_keeps (P := fun _ d => d.tracker = (c.tracker.expire now).1) (fun r rs d hd => ?_)
      (fun d hd => hd) rfl
    rcases d.abandonOne_cases r with ⟨a, -, he⟩ | ⟨-, he⟩ <;> rw [he] <;> exact hd
  refine ⟨h.toFounded.expire now, ?_, ?_⟩
  · intro k hk
    exact (hsame.knows k).2 (h.requested k (hsame.requested k hk))
  · rw [ht]
    refine hsup.mono ?_
    intro k hk
    exact hk.imp_left (hsame.knows k).2

theorem install {ticket : Ticket} {o : Objective} {p : Plan} (h : Provided device acc c [])
    (hp : (Request.install ticket o p).Planned device) (now : Nat) :
    Provided device (acc ++ [.install ticket o p]) (c.opening (.request now (.install ticket o p))).1
      (c.opening (.request now (.install ticket o p))).2 := by
  have hf := h.toFounded.request hp now Bool.false_ne_true
  simp only [Controller.opening, Controller.registerElements_eq] at hf ⊢
  refine ⟨hf, h.requested, Tracker.Supplied.registerAll (K := c.Knows) (fun k hk => Or.inl hk) ?_ ?_
    (hp.wellFormed rfl) ?_ ?_⟩
  · intro w hw k hk
    exact (h.supplied.awaited w hw k hk).imp_left Controller.sends_nil.1
  · intro k rs hk
    simp only [Tracker.registerObjective, Registry.get?_insert] at hk
    split_ifs at hk with hkt
    · exact Or.inr ⟨hkt, hp.rooted.root⟩
    · exact Or.inl ((h.supplied.topped k rs hk).imp_left Controller.sends_nil.1)
  · intro d hd
    exact Or.inr ⟨.create d, List.mem_append_right _ (List.mem_map_of_mem hd), rfl⟩
  · intro e he j hj
    exact Or.inr ⟨.element e, List.mem_append_left _ (List.mem_map_of_mem he), hj⟩

theorem request {r : Request} (h : Provided device acc c []) (hp : r.Planned device) (now : Nat)
    (hr : ¬(Move.handle (.request now r)).removes) :
    Provided device (acc ++ [r]) (c.opening (.request now r)).1 (c.opening (.request now r)).2 := by
  have hf := h.toFounded.request hp now hr
  have hsame := Controller.same_opening (c := c) hr
  -- a request that registers nothing leaves the tracker and the queue alone
  have hrest : (c.opening (.request now r)).1.tracker = c.tracker →
      Provided device (acc ++ [r]) (c.opening (.request now r)).1 (c.opening (.request now r)).2 := by
    intro ht
    refine ⟨hf, ?_, ?_⟩
    · intro k hk
      exact (hsame.knows k).2 (h.requested k (hsame.requested k hk))
    · rw [ht]
      refine h.supplied.mono ?_
      intro k hk
      exact Or.inl ((hsame.knows k).2 (Controller.sends_nil.1 hk))
  cases r with
  | install ticket o p => exact h.install hp now
  | addBucket a =>
    have h' : Provided device (acc ++ [.addBucket a]) c [] :=
      ⟨h.toFounded.snoc _ fun q hq => List.mem_singleton.1 hq ▸ hp, h.requested, h.supplied⟩
    by_cases hs : ∃ existing, c.store.get a.objective.id = .ok (some existing)
    · obtain ⟨existing, hs⟩ := hs
      simp only [Controller.opening, hs]
      exact h'.extend List.mem_concat_self
    · rw [not_exists] at hs
      refine hrest ?_
      rw [Controller.opening_addBucket hs]
      exact Controller.tracker_addBucket hs
  | removeBucket ticket o port =>
    refine hrest ?_
    simp only [Controller.opening, Controller.handle]
    rcases c.removeBucket_cases ticket o port with ⟨e, stop, he⟩ | ⟨existing, i, k, bs, id, -, he⟩ <;> rw [he]
    rfl
  | remove ticket o => exact absurd rfl hr

theorem step {m : Moment} {move : Move} (h : Provided device m.accepted m.controller m.queue)
    (ha : move.Admissible device m) (hr : ¬move.removes) (hj : ¬move.rejects) :
    Provided device (m.step move).accepted (m.step move).controller (m.step move).queue := by
  have hf := h.toFounded.step ha hr (fun _ _ => trivial) fun _ _ => trivial
  cases move with
  | work =>
    simp only [Moment.step, Moment.work] at hf ⊢
    split at hf
    · exact h.of_groups hf rfl h.requested fun _ hk => hk
    · rename_i w ws hq
      rw [hq] at h
      exact h.process
  | handle s =>
    simp only [Moment.step] at hf ⊢
    split_ifs at hf ⊢ with hidle
    · rw [hidle.1] at h
      cases s with
      | request now r => exact h.request ha.1 now hr
      | event e =>
        have hsame := Controller.same_opening (c := m.controller) hr
        have ht : (m.controller.opening (.event e)).1.tracker = m.controller.tracker := by
          obtain ⟨kind, k⟩ := e
          cases kind <;> rfl
        have hacc : (m.begin (.event e)).accepted = m.accepted := List.append_nil _
        rw [hacc] at hf ⊢
        refine h.of_groups hf ht ?_ ?_
        · intro k hk
          exact (hsame.knows k).2 (h.requested k (hsame.requested k hk))
        · intro k hk
          exact Or.inl ((hsame.knows k).2 (Controller.sends_nil.1 hk))
      | sweep =>
        have hacc : (m.begin .sweep).accepted = m.accepted := List.append_nil _
        rw [hacc] at hf ⊢
        exact h.of_groups hf rfl h.requested fun k hk => Or.inl (Controller.sends_nil.1 hk)
      | expire now =>
        simp only [Moment.begin, Stimulus.request?, Option.toList_none, List.append_nil]
        exact h.expire now
    · exact h
  | switch sm =>
    have hknows : ∀ k, m.controller.Knows k → (m.step (.switch sm)).controller.Knows k := by
      intro k hk
      refine Switch.knows_move ?_ hk
      rintro j rfl
      exact hj rfl
    exact h.of_groups hf rfl (fun k hk => hknows k (h.requested k hk)) fun k hk => hk.imp_left (hknows k)

end Provided

theorem provided_start (device : DeviceId) (delay : Nat) (switch : Switch) (store : Store) (metrics : Metrics) :
    Provided device [] (Controller.start device delay switch store metrics) [] := by
  refine ⟨founded_start _ _ _ _ _ _, by simp [Controller.start], ?_, ?_⟩
  · intro w hw
    cases hw
  · intro k rs hk
    cases hk

/-! ## The lowest pending key -/

theorem Key.mem_place {k j : Key} {js : List Key} : j ∈ Key.place k js ↔ j = k ∨ j ∈ js := by
  induction js with
  | nil => simp [Key.place]
  | cons i js ih =>
    rw [Key.place]
    split_ifs with hlt heq
    · exact List.mem_cons
    · subst heq
      simp
    · simp only [List.mem_cons, ih]
      exact or_left_comm

theorem Key.mem_ascending {k : Key} {ks : List Key} : k ∈ Key.ascending ks ↔ k ∈ ks := by
  unfold Key.ascending
  induction ks with
  | nil => simp
  | cons j ks ih => rw [List.foldr_cons, Key.mem_place, ih, List.mem_cons]

theorem Tracker.mem_pendingKeys {t : Tracker} {k : Key} :
    k ∈ t.pendingKeys ↔ (∃ ids, t.groups.get? k = some ids) ∨ ∃ rs, t.objectives.get? k = some rs := by
  rw [pendingKeys, Key.mem_ascending, List.mem_append, Registry.mem_keys_iff, Registry.mem_keys_iff,
    Registry.contains_iff, Registry.contains_iff]

/-- a tracker without pending keys is empty -/
theorem Tracker.Consistent.eq_empty {t : Tracker} (h : t.Consistent) (hnone : t.pendingKeys = []) :
    t.waiting = [] ∧ t.groups = .empty ∧ t.objectives = .empty := by
  have hgroups : ∀ k, t.groups.get? k = none := by
    intro k
    rw [Option.eq_none_iff_forall_ne_some]
    intro ids hids
    exact List.not_mem_nil (hnone ▸ Tracker.mem_pendingKeys.2 (Or.inl ⟨ids, hids⟩))
  have hobjectives : ∀ k, t.objectives.get? k = none := by
    intro k
    rw [Option.eq_none_iff_forall_ne_some]
    intro rs hrs
    exact List.not_mem_nil (hnone ▸ Tracker.mem_pendingKeys.2 (Or.inr ⟨rs, hrs⟩))
  refine ⟨?_, Registry.eq_empty hgroups, Registry.eq_empty hobjectives⟩
  rw [List.eq_nil_iff_forall_not_mem]
  intro w hw
  obtain ⟨k, -, ha⟩ := h.exists_awaiting hw
  simp [Tracker.awaiting, hgroups k] at ha

namespace Tracker

variable {t : Tracker}

theorem pending_of_awaiting {id : Nat} {k : Key} (h : id ∈ t.awaiting k) : k ∈ t.pendingKeys := by
  rw [mem_pendingKeys]
  cases hg : t.groups.get? k with
  | some ids => exact Or.inl ⟨ids, rfl⟩
  | none => simp [awaiting, hg] at h

/-- an element that waits, waits for a pending key -/
theorem Consistent.exists_pending (h : t.Consistent) {w : Waiting} (hw : w ∈ t.waiting) :
    ∃ k ∈ w.element.waitOn, k ∈ t.pendingKeys := by
  obtain ⟨k, hk, ha⟩ := h.exists_awaiting hw
  exact ⟨k, hk, pending_of_awaiting ha⟩

/-- who waits for a pending key -/
theorem Consistent.of_pending (h : t.Consistent) {k : Key} (hk : k ∈ t.pendingKeys) :
    (∃ w ∈ t.waiting, k ∈ w.element.waitOn) ∨ ∃ rs, t.objectives.get? k = some rs := by
  rcases mem_pendingKeys.1 hk with ⟨ids, hids⟩ | hrs
  · obtain ⟨id, hid⟩ := List.exists_mem_of_ne_nil ids (h.awaited k ids hids)
    obtain ⟨w, hw, -, hkw⟩ := h.listed k id (by rw [awaiting, hids]; exact hid)
    exact Or.inl ⟨w, hw, hkw⟩
  · exact Or.inr hrs

theorem pending_advance {k j : Key} (ids : List Nat) (hjk : j ≠ k) (h : j ∈ t.pendingKeys) :
    j ∈ (t.advance k ids).pendingKeys := by
  rw [mem_pendingKeys] at h ⊢
  refine h.imp_left fun ⟨js, hj⟩ => ⟨js, ?_⟩
  rw [advance, Registry.get?_erase, if_neg hjk]
  exact hj

theorem pending_discharge {k j : Key} (hjk : j ≠ k) (h : j ∈ t.pendingKeys) : j ∈ (t.discharge k).pendingKeys := by
  rw [mem_pendingKeys] at h ⊢
  refine h.imp_right fun ⟨rs, hj⟩ => ⟨rs, ?_⟩
  rw [discharge, Registry.get?_erase, if_neg hjk]
  exact hj

/-- a key that nobody is registered under is pending no longer once it is resolved -/
theorem of_pending_advance {k j : Key} {ids : List Nat} (hk : t.objectives.get? k = none)
    (h : j ∈ (t.advance k ids).pendingKeys) : j ≠ k ∧ j ∈ t.pendingKeys := by
  rcases mem_pendingKeys.1 h with ⟨js, hjs⟩ | ⟨rs, hrs⟩
  · obtain ⟨hjk, hjs⟩ := Registry.of_get?_erase hjs
    exact ⟨hjk, mem_pendingKeys.2 (Or.inl ⟨js, hjs⟩)⟩
  · have hold : t.objectives.get? j = some rs := hrs
    refine ⟨?_, mem_pendingKeys.2 (Or.inr ⟨rs, hold⟩)⟩
    rintro rfl
    rw [hk] at hold
    cases hold

/-- a key that no element waits for is pending no longer once its objectives are done with -/
theorem of_pending_discharge {k j : Key} (hk : t.groups.get? k = none) (h : j ∈ (t.discharge k).pendingKeys) :
    j ≠ k ∧ j ∈ t.pendingKeys := by
  rcases mem_pendingKeys.1 h with ⟨js, hjs⟩ | ⟨rs, hrs⟩
  · have hold : t.groups.get? j = some js := hjs
    refine ⟨?_, mem_pendingKeys.2 (Or.inl ⟨js, hold⟩)⟩
    rintro rfl
    rw [hk] at hold
    cases hold
  · obtain ⟨hjk, hrs⟩ := Registry.of_get?_erase hrs
    exact ⟨hjk, mem_pendingKeys.2 (Or.inr ⟨rs, hrs⟩)⟩

theorem mem_awaiting_registerAll {id : Nat} {k : Key} (owner : Key) (es : List Element) (h : id ∈ t.awaiting k) :
    id ∈ (t.registerAll owner es).1.awaiting k :=
  registerAll_keeps (P := fun s => id ∈ s.awaiting k)
    (fun s e _ _ hs => (mem_awaiting_enlist s e owner k id).2 (Or.inl hs)) h

/-- what an element waits for is pending once it is registered -/
theorem pending_registerAll (t : Tracker) (owner : Key) {es : List Element} {e : Element} (he : e ∈ es) {k : Key}
    (hk : k ∈ e.waitOn) : k ∈ (t.registerAll owner es).1.pendingKeys := by
  induction es generalizing t with
  | nil => cases he
  | cons f es ih =>
    by_cases hf : f.waitOn = []
    · rw [registerAll_cons_of_eq es hf]
      rcases List.mem_cons.1 he with rfl | he
      · rw [hf] at hk
        cases hk
      · exact ih t he
    · rw [registerAll_cons_of_ne es hf]
      rcases List.mem_cons.1 he with rfl | he
      · have hnew := (mem_awaiting_enlist t e owner k t.nextId).2 (Or.inr ⟨rfl, hk⟩)
        exact pending_of_awaiting (mem_awaiting_registerAll owner es hnew)
      · exact ih _ he

/-- every group of a plan is pending once an objective is registered with the plan -/
theorem pending_of_complete {p : Plan} (hp : p.Complete) (t : Tracker) (r : Registrant) (now : Nat) {d : Descriptor}
    (hd : d ∈ p.descriptors) :
    d.key ∈ ((t.registerObjective p.topKey r now).registerAll p.topKey p.elements).1.pendingKeys := by
  rcases hp.wanted d hd with htop | ⟨e, he, hwait⟩
  · rw [mem_pendingKeys, objectives_registerAll, htop]
    exact Or.inr ⟨_, (Registry.get?_insert _ _ _ _).trans (if_pos rfl)⟩
  · exact pending_registerAll _ p.topKey he hwait

end Tracker

/-- an element that waits, waits for a pending key of a lower layer -/
theorem Provided.exists_lower {device : DeviceId} {acc : List Request} {c : Controller} {ws : List Work}
    (h : Provided device acc c ws) {w : Waiting} (hw : w ∈ c.tracker.waiting) :
    ∃ j ∈ c.tracker.pendingKeys, j.level < w.element.descriptor.key.level := by
  obtain ⟨j, hj, hpending⟩ := h.consistent.exists_pending hw
  obtain ⟨r, hr, p, hp, he⟩ := h.waiting w hw
  exact ⟨j, hpending, ((h.planned r hr).wellFormed hp).ranked _ he j hj⟩

/-- descending from any pending key one meets a key that the switch knows -/
theorem Provided.exists_known {device : DeviceId} {acc : List Request} {c : Controller} (h : Provided device acc c [])
    (n : Nat) : ∀ k ∈ c.tracker.pendingKeys, k.level = n → ∃ j ∈ c.tracker.pendingKeys, c.Knows j := by
  induction n using Nat.strong_induction_on with
  | _ n ih =>
    intro k hk hn
    have hcomes : ∃ owner, c.tracker.Comes (c.Sends []) owner k := by
      rcases h.consistent.of_pending hk with ⟨w, hw, hkw⟩ | ⟨rs, hrs⟩
      · exact ⟨w.owner, h.supplied.awaited w hw k hkw⟩
      · exact ⟨k, h.supplied.topped k rs hrs⟩
    obtain ⟨owner, hs | ⟨w, hw, -, hc⟩⟩ := hcomes
    · exact ⟨k, hk, Controller.sends_nil.1 hs⟩
    · obtain ⟨j, hj, hlt⟩ := h.exists_lower hw
      rw [hc.2, hn] at hlt
      exact ih j.level hlt j hj rfl

/-- **Nothing gets stuck.** In a run without removals and rejections, between handlers: if any key is pending, then some
pending key stands on the device, so that the next sweep resolves it, or is held by the switch as requested. -/
theorem some_pending_key_is_known {device : DeviceId} {delay : Nat} {switch : Switch} {store : Store}
    {metrics : Metrics} {moves : List Move}
    (h : Allowed (fun m move => move.Admissible device m ∧ ¬move.removes ∧ ¬move.rejects)
      (.start device delay switch store metrics) moves) :
    let c := ((Moment.start device delay switch store metrics).run moves).controller
    ((Moment.start device delay switch store metrics).run moves).queue = [] → c.tracker.pendingKeys ≠ [] →
      ∃ k ∈ c.tracker.pendingKeys,
        (c.group? k).isSome ∨ c.switch.requested.contains (c.device, k) = true := by
  intro c hq hne
  have hp := h.keeps (P := fun m => Provided device m.accepted m.controller m.queue)
    (fun _ _ hm hp => hp.step hm.1 hm.2.1 hm.2.2) (provided_start device delay switch store metrics)
  rw [hq] at hp
  obtain ⟨k, hk⟩ := List.exists_mem_of_ne_nil _ hne
  obtain ⟨j, hj, hknown⟩ := hp.exists_known k.level k hk rfl
  exact ⟨j, hj, hknown.imp Controller.stands_iff.1 Registry.contains_iff.2⟩

/-- the sample, with its interface group asked for and nothing confirmed -/
theorem pending_key_of_sample_is_known :
    ∃ k ∈ (Sample.start.run Sample.asked).controller.tracker.pendingKeys,
      ((Sample.start.run Sample.asked).controller.group? k).isSome ∨
        (Sample.start.run Sample.asked).controller.switch.requested.contains (Sample.device, k) = true := by
  have h : Allowed (fun m move => move.Admissible Sample.device m ∧ ¬move.removes ∧ ¬move.rejects)
      Sample.start Sample.asked :=
    allowed_and.2 ⟨Sample.admissible [] (by decide), by decide +kernel⟩
  exact some_pending_key_is_known h (by decide +kernel) (by decide +kernel)

end FlowGroups
