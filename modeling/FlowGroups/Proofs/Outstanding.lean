/-
Requests that the switch holds. A key is marked when its group is asked for, and the mark keeps a second request from
being made; what takes it away while the switch still holds the request is an objective that is given up, or a report
about an earlier group under the key. Events reach the controller in the order they were emitted, however late (`Turn`).

- `asked_again_only_after_report`: a group is asked for while the switch holds a request for it only if, since that
  request, an objective with its key was given up or a report from before the request was delivered.
- `asked_twice_after_removal`: an objective is removed and installed again, and the report of the removal comes late.
-/
import FlowGroups.Proofs.Release
import FlowGroups.Proofs.Timeouts

namespace FlowGroups

/-! ## Runs with events in order -/

/-- what can happen when the events of the switch arrive in the order they were emitted -/
inductive Turn
  | work
  | request (now : Nat) (r : Request)
  | sweep
  | expire (now : Nat)
  /-- the oldest event that was not delivered yet is handled -/
  | deliver
  | confirm (k : Key)
  | installSilently (k : Key)
  | reject (k : Key)
deriving DecidableEq, Repr

/-- what a turn confronts the controller with, events aside -/
def Turn.stimulus? : Turn → Option Stimulus
  | .request now r => some (.request now r)
  | .sweep => some .sweep
  | .expire now => some (.expire now)
  | _ => none

/-- the moves of a turn; an event leaves the queue of the switch when its handler begins -/
def Turn.moves (m : Moment) : Turn → List Move
  | .work => [.work]
  | .request now r => [.handle (.request now r)]
  | .sweep => [.handle .sweep]
  | .expire now => [.handle (.expire now)]
  | .deliver =>
    match m.controller.switch.events with
    | e :: rest => if m.Idle then [.switch (.scramble rest), .handle (.event e)] else []
    | [] => []
  | .confirm k => [.switch (.confirm k)]
  | .installSilently k => [.switch (.installSilently k)]
  | .reject k => [.switch (.reject k)]

namespace Moment

def turn (m : Moment) (t : Turn) : Moment := m.run (t.moves m)

def play (m : Moment) (turns : List Turn) : Moment := turns.foldl turn m

/-- the moves of some turns -/
def script (m : Moment) : List Turn → List Move
  | [] => []
  | t :: turns => t.moves m ++ (m.turn t).script turns

theorem play_append (m : Moment) (l k : List Turn) : m.play (l ++ k) = (m.play l).play k := List.foldl_append

theorem script_append (m : Moment) (l k : List Turn) : m.script (l ++ k) = m.script l ++ (m.play l).script k := by
  induction l generalizing m with
  | nil => rfl
  | cons t l ih => simp only [List.cons_append, script, ih, List.append_assoc, play, List.foldl_cons]

/-- turns are runs -/
theorem play_eq (m : Moment) (turns : List Turn) : m.play turns = m.run (m.script turns) := by
  induction turns generalizing m with
  | nil => rfl
  | cons t turns ih =>
    rw [script, run_append]
    exact ih (m.turn t)

end Moment

/-! ## Groups on the switch -/

namespace Switch

/-- the same groups stand and are held, and no event is emitted -/
structure Rests (s t : Switch) : Prop where
  isAutomatic : t.isAutomatic = s.isAutomatic
  requested : t.requested = s.requested
  events : t.events = s.events
  stands : ∀ p, t.Stands p ↔ s.Stands p

theorem Rests.refl (s : Switch) : s.Rests s := ⟨rfl, rfl, rfl, fun _ => Iff.rfl⟩

theorem rests_editBuckets (s : Switch) (op : SwitchOp) (device : DeviceId) (k : Key) (f : List Bucket → List Bucket) :
    s.Rests ((s.log op).editBuckets device k f) := by
  have hsame : ((s.log op).editBuckets device k f).isAutomatic = s.isAutomatic ∧
      ((s.log op).editBuckets device k f).requested = s.requested ∧
      ((s.log op).editBuckets device k f).events = s.events := by
    unfold editBuckets
    split <;> exact ⟨rfl, rfl, rfl⟩
  exact ⟨hsame.1, hsame.2.1, hsame.2.2, fun _ => stands_editBuckets⟩

theorem Rests.knows {s t : Switch} (h : s.Rests t) (p : Place) : t.Knows p ↔ s.Knows p := by
  rw [Knows, Knows, Holds, Holds, h.requested]
  exact or_congr_left (h.stands p)

theorem Rests.exclusive {s t : Switch} (h : s.Rests t) {p : Place} (hp : s.Exclusive p) : t.Exclusive p := by
  intro hs
  rw [h.requested]
  exact hp ((h.stands p).1 hs)

theorem addGroup_cases (s : Switch) (d : Descriptor) : (s.addGroup d).isAutomatic = s.isAutomatic ∧
    ((s.isAutomatic = true ∧ (s.addGroup d).requested = s.requested) ∨
      (s.isAutomatic = false ∧ (s.addGroup d).installed = s.installed ∧ (s.addGroup d).events = s.events)) := by
  dsimp only [addGroup]
  split_ifs with ha
  · exact ⟨rfl, Or.inl ⟨ha, rfl⟩⟩
  · exact ⟨rfl, Or.inr ⟨by simpa [log] using ha, rfl, rfl⟩⟩

/-- a group that does not stand is asked for -/
theorem Exclusive.addGroup {s : Switch} {d : Descriptor} {p : Place} (h : s.Exclusive p)
    (hs : ¬s.Stands (d.device, d.key)) (ha : s.isAutomatic = true → s.requested.get? p = none) :
    (s.addGroup d).Exclusive p := by
  intro hstands
  rcases (s.addGroup_cases d).2 with ⟨hauto, hr⟩ | ⟨-, hi, -⟩
  · rw [hr]
    exact ha hauto
  · rw [Stands, hi] at hstands
    by_cases hp : p = (d.device, d.key)
    · exact absurd (hp ▸ hstands) hs
    · rw [(s.get?_addGroup_of_ne hp).2]
      exact h hstands

/-! ### A request that goes on being held -/

theorem isAutomatic_move (s : Switch) (m : SwitchMove) : (s.move m).isAutomatic = s.isAutomatic := by
  obtain ⟨installed, requested, events, he⟩ := s.move_eq m
  rw [he]

theorem holds_of_move {s : Switch} {m : SwitchMove} {p : Place} (h : (s.move m).Holds p) : s.Holds p := by
  by_contra hnone
  rw [Holds, ← Option.isSome_iff_exists, Option.not_isSome_iff_eq_none] at hnone
  obtain ⟨d, hd⟩ := h
  rw [(get?_move_of_unheld hnone m).2] at hd
  cases hd

/-- a confirmation reports a group that is held no longer -/
theorem events_confirm {s : Switch} {device : DeviceId} (hplaced : ∀ p, s.Knows p → p.1 = device) {j k : Key}
    (h : (s.confirm j).1.Holds (device, k)) {e : Event} (he : e ∈ (s.confirm j).1.events) (hk : e.key = k) :
    e ∈ s.events := by
  unfold confirm at h he
  cases hr : s.request? j with
  | none =>
    simp only [installSilently, hr] at he
    exact he
  | some found =>
    obtain ⟨place, d⟩ := found
    have hkey : place.2 = j := by simpa using List.find?_some hr
    have hdevice : place.1 = device := hplaced place (Or.inr ⟨d, request?_some hr⟩)
    simp only [installSilently, hr] at h he
    rcases List.mem_append.1 he with he | he
    · exact he
    · exfalso
      rw [List.mem_singleton.1 he] at hk
      obtain ⟨f, hf⟩ := h
      have hsame : (device, k) = place := Prod.ext hdevice.symm (hk.symm.trans hkey.symm)
      simp [emit, Registry.get?_erase, hsame] at hf

theorem events_installSilently (s : Switch) (k : Key) : (s.installSilently k).1.events = s.events := by
  unfold installSilently
  split <;> rfl

theorem events_reject {s : Switch} {k : Key} {e : Event} (he : e ∈ (s.reject k).1.events) (hk : e.kind ≠ .error) :
    e ∈ s.events := by
  unfold reject at he
  split_ifs at he
  · rcases List.mem_append.1 he with he | he
    · exact he
    · rw [List.mem_singleton.1 he] at hk
      exact absurd rfl hk
  · exact he

end Switch

/-! ## What work and handlers do to the switch -/

namespace Controller

/-- a confirmed key takes the mark from itself alone, and leads to no other resolution -/
theorem confirm_marks (c : Controller) (k : Key) :
    (∀ j ∈ c.requested, j ≠ k → j ∈ (c.confirm k).1.requested) ∧ ∀ j, .resolve j ∉ (c.confirm k).2 := by
  have hmem : ∀ j ∈ c.requested, j ≠ k → j ∈ (c.release k).requested := fun j hj hne =>
    List.mem_filter.2 ⟨hj, by simpa using hne⟩
  rcases c.confirm_cases k with ⟨ids, -, he⟩ | ⟨rs, -, -, he⟩ | he
  · rw [he]
    exact ⟨hmem, by simp⟩
  · rw [he]
    refine completeAll_keeps (c := { c.release k with tracker := c.tracker.discharge k }) (P := fun _ d ws =>
      (∀ j ∈ c.requested, j ≠ k → j ∈ d.requested) ∧ ∀ j, .resolve j ∉ ws) ?_ ⟨hmem, by simp⟩
    rintro r rs d ws ⟨hd, hws⟩
    rcases d.complete_cases k r with ⟨a, -, he⟩ | ⟨-, he⟩
    · rw [he, extend_eq]
      exact ⟨hd, by simpa using hws⟩
    · rw [he, List.append_nil]
      exact ⟨hd, hws⟩
  · rw [he]
    exact ⟨hmem, by simp⟩

/-- work asks for a group that is neither there nor marked as requested, or leaves the switch as it is -/
theorem process_switch (c : Controller) (w : Work) :
    (∃ d, Asks w d ∧ d.key ∉ c.requested ∧ ¬c.Stands d.key ∧ c.process w = (c.asked d, [])) ∨
      ((c.process w).1.device = c.device ∧ c.switch.Rests (c.process w).1.switch ∧
        (c.process w).1.switch.sent = c.switch.sent ∧
        (∀ k ∈ c.requested, k ∈ (c.process w).1.requested ∨ w = .resolve k) ∧
        ∀ k, .resolve k ∈ (c.process w).2 → c.Stands k) := by
  have hsubmit : ∀ d, Asks w d → c.process w = c.submit d →
      (∃ d, Asks w d ∧ d.key ∉ c.requested ∧ ¬c.Stands d.key ∧ c.process w = (c.asked d, [])) ∨
        ((c.process w).1 = c ∧ ∀ k, .resolve k ∈ (c.process w).2 → c.Stands k) := by
    intro d hw he
    rw [he]
    unfold submit
    split_ifs with hr hs
    · exact Or.inr ⟨rfl, by simp⟩
    · refine Or.inr ⟨rfl, fun k hk => ?_⟩
      cases List.mem_singleton.1 hk
      exact stands_iff.2 hs
    · exact Or.inl ⟨d, hw, hr, fun h => hs (stands_iff.1 h), rfl⟩
  cases w with
  | create d =>
    refine (hsubmit d (Or.inl rfl) rfl).imp_right ?_
    rintro ⟨hc, hk⟩
    rw [hc]
    exact ⟨rfl, .refl _, rfl, fun k hk => Or.inl hk, hk⟩
  | element e =>
    cases hb : e.addBucket with
    | true =>
      simp only [process, act, hb, if_true]
      refine Or.inr ⟨trivial, Switch.rests_editBuckets _ _ _ _ _, ?_, fun k hk => Or.inl hk, by simp⟩
      simp [Switch.sent, Switch.addBuckets, Switch.ops_editBuckets, Switch.log]
    | false =>
      refine (hsubmit e.descriptor (Or.inr ⟨e, rfl, hb, rfl⟩) (by simp [process, act, hb])).imp_right ?_
      rintro ⟨hc, hk⟩
      rw [hc]
      exact ⟨rfl, .refl _, rfl, fun k hk => Or.inl hk, hk⟩
  | resolve k =>
    obtain ⟨hmarks, hresolve⟩ := c.confirm_marks k
    have hswitch : (c.process (.resolve k)).1.switch = c.switch := (c.confirm_spares k).1
    refine Or.inr ⟨(c.same_confirm k).device, ?_, ?_, fun j hj => ?_, fun j hj => absurd hj (hresolve j)⟩
    · rw [hswitch]
      exact .refl _
    · rw [hswitch]
    · by_cases hjk : j = k
      · exact Or.inr (hjk ▸ rfl)
      · exact Or.inl (hmarks j hj hjk)

/-- a handler removes groups, or leaves the switch as it is; it resolves what stands, or what was just reported -/
theorem opening_switch (c : Controller) (s : Stimulus) : (c.opening s).1.device = c.device ∧
    ((c.switch.Rests (c.opening s).1.switch ∧
        ∀ k, .resolve k ∈ (c.opening s).2 → c.Stands k ∨ s = .event ⟨.added, k⟩) ∨
      ∃ ks, (c.opening s).1.switch = c.switch.removeGroups c.device ks ∧ (c.opening s).2 = []) := by
  have hopens := c.opens s
  generalize c.opening s = x at hopens ⊢
  cases hopens with
  | detach => exact ⟨rfl, Or.inl ⟨Switch.rests_editBuckets _ _ _ _ _, by simp⟩⟩
  | remove now ticket o =>
    refine ⟨(c.remove_spares ticket o).1, ?_⟩
    rcases c.switch_remove ticket o with he | ⟨ks, he⟩
    · rw [he]
      exact Or.inl ⟨.refl _, by simp⟩
    · exact Or.inr ⟨ks, he, rfl⟩
  | added k => exact ⟨rfl, Or.inl ⟨.refl _, fun j hj => Or.inr (by cases List.mem_singleton.1 hj; rfl)⟩⟩
  | sweep =>
    refine ⟨rfl, Or.inl ⟨.refl _, fun k hk => Or.inl (stands_iff.2 ?_)⟩⟩
    simpa using And.right (by simpa using hk)
  | expire now =>
    obtain ⟨⟨hd, hs, -, -⟩, -, -, -⟩ := c.expire_spares now
    refine ⟨hd, Or.inl ⟨?_, by simp⟩⟩
    rw [hs]
    exact .refl _
  | install | extend | defer | refuseBucket | refuseDetach | removed | error =>
    exact ⟨rfl, Or.inl ⟨.refl _, by simp⟩⟩

end Controller

/-! ## What holds at every moment -/

/-- everything is about one device, no group is at once there and held, and what is resolved stands or was reported -/
structure Steady (device : DeviceId) (m : Moment) : Prop where
  founded : Founded (fun _ => True) device m.accepted m.controller m.queue
  placed : ∀ p, m.controller.switch.Knows p → p.1 = device
  exclusive : ∀ p, m.controller.switch.Exclusive p
  automatic : m.controller.switch.isAutomatic = true → ∀ p, m.controller.switch.requested.get? p = none
  resolves : ∀ k, .resolve k ∈ m.queue → m.controller.Stands k ∨ m.queue = [.resolve k]

theorem Founded.device_of_asks {D : Key → Prop} {device : DeviceId} {acc : List Request} {c : Controller} {w : Work}
    {ws : List Work} {d : Descriptor} (h : Founded D device acc c (w :: ws)) (hw : Controller.Asks w d) :
    d.device = device := by
  have hfound := h.work w List.mem_cons_self
  rcases hw with rfl | ⟨e, rfl, -, rfl⟩
  · obtain ⟨r, hr, p, hp, hd⟩ := hfound
    exact ((h.planned r hr).wellFormed hp).home d (List.mem_append_left _ hd)
  · obtain ⟨⟨r, hr, p, hp, he⟩, -⟩ := hfound
    exact ((h.planned r hr).wellFormed hp).home _ (List.mem_append_right _ (List.mem_map_of_mem he))

namespace Steady

variable {device : DeviceId} {m : Moment}

/-- the keys further back in the queue stand -/
theorem tail {w : Work} {ws : List Work} (h : Steady device m) (hq : m.queue = w :: ws) {k : Key}
    (hk : .resolve k ∈ ws) : m.controller.Stands k := by
  rcases h.resolves k (hq ▸ List.mem_cons_of_mem w hk) with hs | hone
  · exact hs
  · rw [hq, List.cons.injEq] at hone
    rw [hone.2] at hk
    cases hk

theorem work (h : Steady device m) : Steady device (m.step .work) := by
  have hf : Founded (fun _ => True) device (m.step .work).accepted (m.step .work).controller (m.step .work).queue :=
    h.founded.step_any trivial
  cases hq : m.queue with
  | nil =>
    rw [Moment.step_work_nil hq] at hf ⊢
    exact ⟨hf, h.placed, h.exclusive, h.automatic, h.resolves⟩
  | cons w ws =>
    have hstep := Moment.step_work hq
    rcases m.controller.process_switch w with ⟨d, hw, -, hs, he⟩ | ⟨hd, hrests, -, -, hresolve⟩
    · have hdevice : d.device = m.controller.device :=
        (Founded.device_of_asks (hq ▸ h.founded) hw).trans h.founded.home.symm
      have hswitch : (m.step .work).controller.switch = m.controller.switch.addGroup d := by rw [hstep, he]; rfl
      refine ⟨hf, fun p hp => ?_, fun p => ?_, fun ha p => ?_, fun k hk => Or.inl ?_⟩
      · rw [hswitch] at hp
        rcases Switch.knows_addGroup.1 hp with hp | rfl
        · exact h.placed p hp
        · exact hdevice.trans h.founded.home
      · rw [hswitch]
        apply (h.exclusive p).addGroup _ fun ha => h.automatic ha p
        rw [hdevice]
        exact hs
      · rw [hswitch] at ha ⊢
        obtain ⟨hsame, hr⟩ := m.controller.switch.addGroup_cases d
        rw [hsame] at ha
        rcases hr with ⟨-, hr⟩ | ⟨hmanual, -⟩
        · rw [hr]
          exact h.automatic ha p
        · rw [ha] at hmanual
          cases hmanual
      · rw [hstep, he, List.append_nil] at hk
        rw [hstep, he]
        exact Controller.stands_asked (h.tail hq hk)
    · have hwork : ¬Move.work.removes := Bool.false_ne_true
      have hstands : ∀ k, m.controller.Stands k → (m.step .work).controller.Stands k := fun k =>
        Moment.stands_step hwork
      refine ⟨hf, fun p hp => ?_, fun p => ?_, fun ha p => ?_, fun k hk => Or.inl (hstands k ?_)⟩
      · rw [hstep, hrests.knows] at hp
        exact h.placed p hp
      · rw [hstep]
        exact hrests.exclusive (h.exclusive p)
      · rw [hstep, hrests.isAutomatic] at ha
        rw [hstep, hrests.requested]
        exact h.automatic ha p
      · rw [hstep] at hk
        exact (List.mem_append.1 hk).elim (h.tail hq) (hresolve k)

theorem begin (h : Steady device m) (hidle : m.Idle) {s : Stimulus} (ha : (Move.handle s).Admissible device m) :
    Steady device (m.begin s) := by
  have hf : Founded (fun _ => True) device (m.begin s).accepted (m.begin s).controller (m.begin s).queue := by
    have hstep := h.founded.step_any ha
    rwa [Moment.step, if_pos hidle] at hstep
  obtain ⟨hd, ⟨hrests, hresolve⟩ | ⟨ks, hs, hnone⟩⟩ := m.controller.opening_switch s
  · refine ⟨hf, fun p hp => h.placed p ((hrests.knows p).1 hp), fun p => hrests.exclusive (h.exclusive p),
      fun hauto p => ?_, fun k hk => ?_⟩
    · simp only [Moment.begin, hrests.isAutomatic, hrests.requested] at hauto ⊢
      exact h.automatic hauto p
    · rcases hresolve k hk with hstands | rfl
      · left
        rw [Controller.Stands] at hstands ⊢
        simp only [Moment.begin, hd]
        exact (hrests.stands _).2 hstands
      · exact Or.inr rfl
  · have hswitch : (m.begin s).controller.switch = m.controller.switch.removeGroups m.controller.device ks := hs
    refine ⟨hf, fun p hp => ?_, fun p => ?_, fun hauto p => ?_, fun k hk => ?_⟩
    · rw [hswitch] at hp
      exact h.placed p (Switch.knows_removeGroups_iff.1 hp).1
    · rw [hswitch]
      intro hstands
      have hold := h.exclusive p (Switch.stands_removeGroups_iff.1 hstands).1
      rw [(m.controller.switch.get?_removeGroups _ ks p).2, hold, ite_self]
    · rw [hswitch] at hauto ⊢
      rw [(m.controller.switch.rest_removeGroups _ ks).1] at hauto
      rw [(m.controller.switch.get?_removeGroups _ ks p).2, h.automatic hauto, ite_self]
    · simp only [Moment.begin, hnone] at hk
      cases hk

/-- **One move.** -/
theorem step (h : Steady device m) {move : Move} (ha : move.Admissible device m) : Steady device (m.step move) := by
  cases move with
  | work => exact h.work
  | handle s =>
    rw [Moment.step]
    split_ifs with hidle
    · exact h.begin hidle ha
    · exact h
  | switch sm =>
    refine ⟨h.founded.step_any ha, fun p hp => h.placed p (Switch.knows_of_move hp), fun p => (h.exclusive p).move sm,
      fun hauto p => ?_, fun k hk => ?_⟩
    · simp only [Moment.step, Switch.isAutomatic_move] at hauto
      exact (Switch.get?_move_of_unheld (h.automatic hauto p) sm).2
    · have hswitch : ¬(Move.switch sm).removes := Bool.false_ne_true
      exact (h.resolves k hk).imp_left (Moment.stands_step hswitch)

theorem run (h : Steady device m) {moves : List Move} (ha : Allowed (fun m move => move.Admissible device m) m moves) :
    Steady device (m.run moves) :=
  ha.keeps (P := Steady device) (fun _ _ hmove hm => hm.step hmove) h

end Steady

theorem steady_start (device : DeviceId) (delay : Nat) (isAutomatic : Bool) (store : Store) (metrics : Metrics) :
    Steady device (.start device delay (.fresh isAutomatic) store metrics) := by
  refine ⟨founded_start _ _ _ _ _ _, ?_, fun p _ => rfl, fun _ _ => rfl, fun k hk => ?_⟩
  · rintro p (⟨d, hd⟩ | ⟨d, hd⟩) <;> cases hd
  · cases hk

/-! ## A turn while a request is held -/

/-- does the stimulus give up an objective whose record has the key? -/
def Stimulus.Abandons (c : Controller) (k : Key) : Stimulus → Prop
  | .expire now => ∃ r ∈ (c.tracker.expire now).2.flatMap Prod.snd, k ∈ r.record.distinctKeys
  | .request _ (.remove _ o) => ∃ r ∈ (c.tracker.takeObjective o.id).2, k ∈ r.record.distinctKeys
  | _ => False

namespace Controller

theorem sent_opening (c : Controller) (s : Stimulus) : (c.opening s).1.switch.sent = c.switch.sent := by
  obtain ⟨new, hops, hquiet⟩ := c.ops_opening s
  rw [Switch.sent, hops, List.filterMap_append, Switch.sent, List.append_right_eq_self, List.filterMap_eq_nil_iff]
  intro op hop
  have := hquiet op hop
  cases op <;> simp_all [SwitchOp.adds]

/-- a handler takes the mark only from keys of objectives it gives up, and of groups it removes -/
theorem marks_opening {c : Controller} {s : Stimulus} (hs : ∀ e, s ≠ .event e) {k : Key} (hk : k ∈ c.requested) :
    k ∈ (c.opening s).1.requested ∨ s.Abandons c k ∨ ¬(c.opening s).1.switch.Holds (c.device, k) := by
  have hopens := c.opens s
  generalize c.opening s = x at hopens ⊢
  cases hopens with
  | remove now ticket o => exact (c.requested_remove ticket o).2 k hk
  | added | removed | error => exact absurd rfl (hs _)
  | expire now =>
    by_cases hr : k ∈ (c.expire now).requested
    · exact Or.inl hr
    · rw [requested_expire, not_and] at hr
      have hnot := hr hk
      push Not at hnot
      obtain ⟨r, hgiven, hmem, -⟩ := hnot
      exact Or.inr (Or.inl ⟨r, hgiven, hmem⟩)
  | install | extend | defer | refuseBucket | detach | refuseDetach | sweep => exact Or.inl hk

end Controller

/-- does the turn give up an objective whose record has the key? -/
def Turn.Abandons (m : Moment) (k : Key) (t : Turn) : Prop :=
  m.Idle ∧ ∃ s ∈ t.stimulus?, s.Abandons m.controller k

/-- does the turn deliver this event? -/
def Turn.Delivers (m : Moment) (e : Event) (t : Turn) : Prop :=
  t = .deliver ∧ m.Idle ∧ m.controller.switch.events.head? = some e

/-- is the key marked as requested, and not about to be resolved? -/
def Moment.Marked (m : Moment) (k : Key) : Prop := k ∈ m.controller.requested ∧ m.queue ≠ [.resolve k]

/-- between two moments the switch went on holding a request, and none was made under its key -/
structure Holding (device : DeviceId) (k : Key) (m n : Moment) : Prop where
  held : m.controller.switch.Holds (device, k)
  sent : ∃ later, n.controller.switch.sent = m.controller.switch.sent ++ later ∧ k ∉ later
  events : ∀ kind, kind ≠ .error → ⟨kind, k⟩ ∈ n.controller.switch.events → ⟨kind, k⟩ ∈ m.controller.switch.events

theorem Holding.of_sent {device : DeviceId} {k : Key} {m n : Moment} (h : m.controller.switch.Holds (device, k))
    (hs : n.controller.switch.sent = m.controller.switch.sent)
    (he : ∀ kind, kind ≠ .error → ⟨kind, k⟩ ∈ n.controller.switch.events → ⟨kind, k⟩ ∈ m.controller.switch.events) :
    Holding device k m n :=
  ⟨h, ⟨[], by rw [hs, List.append_nil], List.not_mem_nil⟩, he⟩

namespace Steady

variable {device : DeviceId} {m : Moment} {k : Key}

theorem not_stands (h : Steady device m) (hk : m.controller.switch.Holds (device, k)) : ¬m.controller.Stands k := by
  intro hs
  obtain ⟨d, hd⟩ := hk
  rw [Controller.Stands, h.founded.home] at hs
  rw [h.exclusive _ hs] at hd
  cases hd

/-- an item of work asks for the group of the key, or the request goes on being held -/
theorem held_work (h : Steady device m) (hk : (m.step .work).controller.switch.Holds (device, k)) :
    ((m.step .work).controller.switch.sent = m.controller.switch.sent ++ [k] ∧ (m.step .work).Marked k ∧
        (m.step .work).controller.switch.events = m.controller.switch.events) ∨
      (Holding device k m (m.step .work) ∧ (m.Marked k → (m.step .work).Marked k)) := by
  cases hq : m.queue with
  | nil =>
    rw [Moment.step_work_nil hq] at hk ⊢
    exact Or.inr ⟨.of_sent hk rfl fun _ _ he => he, fun hm => hm⟩
  | cons w ws =>
    have hstep := Moment.step_work hq
    rcases m.controller.process_switch w with ⟨d, hw, -, hs, he⟩ | ⟨-, hrests, hsent, hmarks, hresolve⟩
    · have hdevice : d.device = device := Founded.device_of_asks (hq ▸ h.founded) hw
      have hswitch : (m.step .work).controller.switch = m.controller.switch.addGroup d := by rw [hstep, he]; rfl
      have hqueue : (m.step .work).queue = ws := by rw [hstep, he, List.append_nil]
      rw [hswitch] at hk
      by_cases hdk : d.key = k
      · subst hdk
        refine Or.inl ⟨by rw [hswitch, Switch.sent_addGroup], ⟨?_, fun hone => ?_⟩, ?_⟩
        · rw [hstep, he]
          exact List.mem_cons_self
        · rw [hqueue] at hone
          exact hs (h.tail hq (hone ▸ List.mem_singleton_self _))
        · rw [hswitch]
          rcases (m.controller.switch.addGroup_cases d).2 with ⟨hauto, hr⟩ | ⟨-, -, hevents⟩
          · obtain ⟨e, hheld⟩ := hk
            rw [hr, h.automatic hauto] at hheld
            cases hheld
          · exact hevents
      · have hne : (device, k) ≠ (d.device, d.key) := fun heq => hdk (congrArg Prod.snd heq).symm
        have hheld : m.controller.switch.Holds (device, k) := by
          rwa [Switch.Holds, (m.controller.switch.get?_addGroup_of_ne hne).2] at hk
        have hother : k ∉ [d.key] := by simpa using Ne.symm hdk
        refine Or.inr ⟨⟨hheld, ⟨[d.key], by rw [hswitch, Switch.sent_addGroup], hother⟩, ?_⟩,
          fun hm => ⟨?_, fun hone => ?_⟩⟩
        · rw [hswitch]
          intro kind _ hmem
          dsimp only [Switch.addGroup] at hmem
          split_ifs at hmem
          · rcases List.mem_append.1 hmem with hmem | hmem
            · exact hmem
            · exact absurd (congrArg Event.key (List.mem_singleton.1 hmem)).symm hdk
          · exact hmem
        · rw [hstep, he]
          exact List.mem_cons_of_mem _ hm.1
        · rw [hqueue] at hone
          exact h.not_stands hheld (h.tail hq (hone ▸ List.mem_singleton_self _))
    · rw [hstep, Switch.Holds, hrests.requested] at hk
      refine Or.inr ⟨.of_sent hk (by rw [hstep, hsent]) fun kind _ hmem => ?_, fun hm => ⟨?_, fun hone => ?_⟩⟩
      · rwa [hstep, hrests.events] at hmem
      · rw [hstep]
        rcases hmarks k hm.1 with hr | rfl
        · exact hr
        · rcases h.resolves k (hq ▸ List.mem_cons_self) with hs | hone
          · exact absurd hs (h.not_stands hk)
          · exact absurd hone hm.2
      · have hmem : .resolve k ∈ (m.step .work).queue := hone ▸ List.mem_singleton_self _
        rw [hstep] at hmem
        exact h.not_stands hk ((List.mem_append.1 hmem).elim (h.tail hq) (hresolve k))

/-- a handler that no event calls gives up an objective, or leaves the mark -/
theorem held_begin (h : Steady device m) {s : Stimulus} (hs : ∀ e, s ≠ .event e)
    (hk : (m.begin s).controller.switch.Holds (device, k)) :
    Holding device k m (m.begin s) ∧ (m.Marked k → (m.begin s).Marked k ∨ s.Abandons m.controller k) := by
  have hheld : m.controller.switch.Holds (device, k) ∧ ∀ kind, ⟨kind, k⟩ ∈ (m.begin s).controller.switch.events →
      ⟨kind, k⟩ ∈ m.controller.switch.events := by
    obtain ⟨-, ⟨hrests, -⟩ | ⟨ks, hremoved, -⟩⟩ := m.controller.opening_switch s
    · rw [Switch.Holds, Moment.begin, hrests.requested] at hk
      exact ⟨hk, fun kind hmem => hrests.events ▸ hmem⟩
    · simp only [Moment.begin, hremoved] at hk ⊢
      obtain ⟨hk, hnot⟩ := Switch.holds_removeGroups_iff.1 hk
      refine ⟨hk, fun kind hmem => ?_⟩
      rcases (m.controller.switch.rest_removeGroups _ ks).2 _ hmem with hmem | hmem
      · exact hmem
      · exact absurd ⟨h.founded.home.symm, hmem⟩ hnot
  refine ⟨.of_sent hheld.1 (m.controller.sent_opening s) fun kind _ => hheld.2 kind, fun hm => ?_⟩
  rcases Controller.marks_opening hs hm.1 with hr | ha | hnot
  · refine Or.inl ⟨hr, fun hone => ?_⟩
    obtain ⟨-, ⟨-, hresolve⟩ | ⟨ks, -, hnone⟩⟩ := m.controller.opening_switch s
    · have hmem : .resolve k ∈ (m.controller.opening s).2 := by
        change .resolve k ∈ (m.begin s).queue
        rw [hone]
        exact List.mem_singleton_self _
      rcases hresolve k hmem with hstands | he
      · exact h.not_stands hheld.1 hstands
      · exact hs _ he
    · change (m.controller.opening s).2 = [.resolve k] at hone
      rw [hnone] at hone
      cases hone
  · exact Or.inr ha
  · rw [h.founded.home] at hnot
    exact absurd hk hnot

/-- a delivered event takes the mark from its own key, unless it is an error -/
theorem held_deliver {e : Event} {rest : List Event} (he : m.controller.switch.events = e :: rest)
    (hk : ((m.step (.switch (.scramble rest))).begin (.event e)).controller.switch.Holds (device, k)) :
    Holding device k m ((m.step (.switch (.scramble rest))).begin (.event e)) ∧
      (m.Marked k → ((m.step (.switch (.scramble rest))).begin (.event e)).Marked k ∨
        ∃ kind, kind ≠ .error ∧ e = ⟨kind, k⟩) := by
  obtain ⟨kind, j⟩ := e
  let taken : Moment := m.step (.switch (.scramble rest))
  have hheld : m.controller.switch.Holds (device, k) := by
    cases kind <;> exact hk
  have hevents : ∀ kind', ⟨kind', k⟩ ∈ (taken.begin (.event ⟨kind, j⟩)).controller.switch.events →
      ⟨kind', k⟩ ∈ m.controller.switch.events := by
    intro kind' hmem
    rw [he]
    apply List.mem_cons_of_mem
    cases kind <;> exact hmem
  have hqueue : ∀ i, kind = .error ∨ j ≠ i → (taken.begin (.event ⟨kind, j⟩)).queue ≠ [.resolve i] := by
    rintro i (rfl | hne)
    · simp [Moment.begin, Controller.opening]
    · cases kind <;> simp [Moment.begin, Controller.opening, hne]
  refine ⟨.of_sent hheld (taken.controller.sent_opening (.event ⟨kind, j⟩)) fun kind' _ => hevents kind', fun hm => ?_⟩
  by_cases hreport : kind = .error ∨ j ≠ k
  · refine Or.inl ⟨?_, hqueue k hreport⟩
    cases kind with
    | added => exact hm.1
    | error => exact hm.1
    | removed =>
      have hne : j ≠ k := hreport.resolve_left (by simp)
      exact List.mem_filter.2 ⟨hm.1, by simpa using Ne.symm hne⟩
  · rw [not_or, not_not] at hreport
    obtain ⟨hkind, rfl⟩ := hreport
    exact Or.inr ⟨kind, hkind, rfl⟩

/-- **One turn.** A request that is held after it was made by it, or was held before; and the mark is lost only when an
objective is given up, or when a report about the key is delivered. -/
theorem held_turn (h : Steady device m) {t : Turn} (hk : (m.turn t).controller.switch.Holds (device, k)) :
    (t = .work ∧ (m.turn t).controller.switch.sent = m.controller.switch.sent ++ [k] ∧ (m.turn t).Marked k ∧
        (m.turn t).controller.switch.events = m.controller.switch.events) ∨
      (Holding device k m (m.turn t) ∧ (m.Marked k → (m.turn t).Marked k ∨ t.Abandons m k ∨
        ∃ kind, kind ≠ .error ∧ t.Delivers m ⟨kind, k⟩)) := by
  have hhandle : ∀ s, (∀ e, s ≠ .event e) → t.stimulus? = some s → m.turn t = m.step (.handle s) →
      Holding device k m (m.turn t) ∧ (m.Marked k → (m.turn t).Marked k ∨ t.Abandons m k ∨
        ∃ kind, kind ≠ .error ∧ t.Delivers m ⟨kind, k⟩) := by
    intro s hs ht hturn
    rw [hturn, Moment.step] at hk ⊢
    split_ifs at hk ⊢ with hidle
    · obtain ⟨hholding, hmarked⟩ := h.held_begin hs hk
      exact ⟨hholding, fun hm => (hmarked hm).imp_right fun ha => Or.inl ⟨hidle, s, ht, ha⟩⟩
    · exact ⟨.of_sent hk rfl fun _ _ he => he, fun hm => Or.inl hm⟩
  have hswitch : ∀ sm, m.turn t = m.step (.switch sm) →
      (∀ kind, kind ≠ .error → ⟨kind, k⟩ ∈ (m.controller.switch.move sm).events →
        ⟨kind, k⟩ ∈ m.controller.switch.events) →
      Holding device k m (m.turn t) ∧ (m.Marked k → (m.turn t).Marked k ∨ t.Abandons m k ∨
        ∃ kind, kind ≠ .error ∧ t.Delivers m ⟨kind, k⟩) := by
    intro sm hturn hevents
    rw [hturn] at hk ⊢
    exact ⟨.of_sent (Switch.holds_of_move hk) (Switch.sent_move _ sm) hevents, fun hm => Or.inl hm⟩
  cases t with
  | work => exact (h.held_work hk).imp (fun hw => ⟨rfl, hw⟩) fun hw => ⟨hw.1, fun hm => Or.inl (hw.2 hm)⟩
  | request now r => exact Or.inr (hhandle _ (fun _ he => by cases he) rfl rfl)
  | sweep => exact Or.inr (hhandle _ (fun _ he => by cases he) rfl rfl)
  | expire now => exact Or.inr (hhandle _ (fun _ he => by cases he) rfl rfl)
  | confirm j =>
    exact Or.inr (hswitch (.confirm j) rfl fun kind _ hmem => Switch.events_confirm h.placed hk hmem rfl)
  | installSilently j =>
    refine Or.inr (hswitch (.installSilently j) rfl fun kind _ hmem => ?_)
    exact Switch.events_installSilently m.controller.switch j ▸ hmem
  | reject j => exact Or.inr (hswitch (.reject j) rfl fun kind hkind hmem => Switch.events_reject hmem hkind)
  | deliver =>
    right
    cases he : m.controller.switch.events with
    | nil =>
      have hturn : m.turn .deliver = m := by simp [Moment.turn, Turn.moves, he, Moment.run]
      rw [hturn] at hk ⊢
      exact ⟨.of_sent hk rfl fun _ _ hmem => hmem, fun hm => Or.inl hm⟩
    | cons e rest =>
      by_cases hidle : m.Idle
      · have hturn : m.turn .deliver = (m.step (.switch (.scramble rest))).begin (.event e) := by
          have hmoves : Turn.deliver.moves m = [.switch (.scramble rest), .handle (.event e)] := by
            simp [Turn.moves, he, hidle]
          rw [Moment.turn, hmoves]
          exact if_pos hidle
        rw [hturn] at hk ⊢
        obtain ⟨hholding, hmarked⟩ := held_deliver he hk
        refine ⟨hholding, fun hm => (hmarked hm).imp_right fun hreport => Or.inr ?_⟩
        obtain ⟨kind, hkind, rfl⟩ := hreport
        exact ⟨kind, hkind, rfl, hidle, by rw [he]; rfl⟩
      · have hturn : m.turn .deliver = m := by simp [Moment.turn, Turn.moves, he, hidle, Moment.run]
        rw [hturn] at hk ⊢
        exact ⟨.of_sent hk rfl fun _ _ hmem => hmem, fun hm => Or.inl hm⟩

end Steady

/-! ## Requests since they were made -/

/-- a key that is marked is not asked for -/
theorem Moment.not_marked_of_sent {m : Moment} {k : Key}
    (h : (m.step .work).controller.switch.sent = m.controller.switch.sent ++ [k]) : k ∉ m.controller.requested := by
  intro hk
  have hsame : (m.step .work).controller.switch.sent ≠ m.controller.switch.sent := by simp [h]
  cases hq : m.queue with
  | nil =>
    simp only [step, work, hq] at hsame
    exact hsame rfl
  | cons w ws =>
    rw [step_work hq] at h hsame
    rcases m.controller.process_switch w with ⟨d, -, hr, -, he⟩ | ⟨-, -, hsent, -⟩
    · have hkey : (m.controller.asked d).switch.sent = m.controller.switch.sent ++ [d.key] := Switch.sent_addGroup _ d
      simp only [he, hkey, List.append_cancel_left_eq, List.cons.injEq, and_true] at h
      exact hr (h ▸ hk)
    · exact hsame hsent

/-- what became of a request since it was made, as the first of some turns -/
structure Pursued (device : DeviceId) (k : Key) (p : Moment) (since : List Turn) : Prop where
  made : (p.turn .work).controller.switch.sent = p.controller.switch.sent ++ [k]
  sent : ∃ later, ((p.turn .work).play since).controller.switch.sent =
    (p.turn .work).controller.switch.sent ++ later ∧ k ∉ later
  events : ∀ kind, kind ≠ .error → ⟨kind, k⟩ ∈ ((p.turn .work).play since).controller.switch.events →
    ⟨kind, k⟩ ∈ p.controller.switch.events
  marked : ((p.turn .work).play since).Marked k ∨ ∃ l t r, since = l ++ t :: r ∧
    (t.Abandons ((p.turn .work).play l) k ∨ ∃ kind, kind ≠ .error ∧ ⟨kind, k⟩ ∈ p.controller.switch.events ∧
      t.Delivers ((p.turn .work).play l) ⟨kind, k⟩)

/-- one more turn in which no request is made under the key -/
theorem Pursued.snoc {device : DeviceId} {k : Key} {p : Moment} {since : List Turn} (h : Pursued device k p since)
    {t : Turn} (hheld : Holding device k ((p.turn .work).play since) (((p.turn .work).play since).turn t))
    (hm : ((p.turn .work).play since).Marked k → (((p.turn .work).play since).turn t).Marked k ∨
      t.Abandons ((p.turn .work).play since) k ∨
      ∃ kind, kind ≠ .error ∧ t.Delivers ((p.turn .work).play since) ⟨kind, k⟩) :
    Pursued device k p (since ++ [t]) := by
  have hplay : (p.turn .work).play (since ++ [t]) = ((p.turn .work).play since).turn t := Moment.play_append _ _ _
  refine ⟨h.made, ?_, fun kind hkind hmem => ?_, ?_⟩
  · obtain ⟨earlier, he, hearlier⟩ := h.sent
    obtain ⟨later, hl, hlater⟩ := hheld.sent
    refine ⟨earlier ++ later, by rw [hplay, hl, he, List.append_assoc], ?_⟩
    rw [List.mem_append, not_or]
    exact ⟨hearlier, hlater⟩
  · rw [hplay] at hmem
    exact h.events kind hkind (hheld.events kind hkind hmem)
  · rcases h.marked with hmarked | ⟨l, u, r, rfl, hu⟩
    · rcases hm hmarked with hnext | ha | ⟨kind, hkind, hd⟩
      · exact Or.inl (by rw [hplay]; exact hnext)
      · exact Or.inr ⟨since, t, [], rfl, Or.inl ha⟩
      · obtain ⟨rest, hrest⟩ := List.head?_eq_some_iff.1 hd.2.2
        have hmem := h.events kind hkind (hrest ▸ List.mem_cons_self)
        exact Or.inr ⟨since, t, [], rfl, Or.inr ⟨kind, hkind, hmem, hd⟩⟩
    · exact Or.inr ⟨l, u, r ++ [t], by simp, hu⟩

/-- **Every request that is held was made once**, and what became of it since is known. -/
theorem Steady.pursued {device : DeviceId} {m : Moment} (h : Steady device m)
    (hnone : ∀ p, m.controller.switch.requested.get? p = none) {turns : List Turn}
    (ha : Allowed (fun m move => move.Admissible device m) m (m.script turns)) :
    Steady device (m.play turns) ∧ ∀ k, (m.play turns).controller.switch.Holds (device, k) →
      ∃ before since, turns = before ++ .work :: since ∧ Pursued device k (m.play before) since := by
  induction turns using List.reverseRecOn with
  | nil =>
    refine ⟨h, ?_⟩
    rintro k ⟨d, hd⟩
    have hfree : m.controller.switch.requested.get? (device, k) = none := hnone _
    change m.controller.switch.requested.get? (device, k) = some d at hd
    rw [hfree] at hd
    cases hd
  | append_singleton turns t ih =>
    rw [Moment.script_append, allowed_append, ← Moment.play_eq] at ha
    obtain ⟨hsteady, hall⟩ := ih ha.1
    have hmoves : Allowed (fun m move => move.Admissible device m) (m.play turns) (t.moves (m.play turns)) := by
      have hlast := ha.2
      rw [Moment.script, Moment.script, List.append_nil] at hlast
      exact hlast
    have hplay : m.play (turns ++ [t]) = (m.play turns).turn t := Moment.play_append _ _ _
    rw [hplay]
    refine ⟨hsteady.run hmoves, fun k hk => ?_⟩
    rcases hsteady.held_turn hk with ⟨rfl, hsent, hmarked, hevents⟩ | ⟨hheld, hmarks⟩
    · exact ⟨turns, [], rfl, hsent, ⟨[], by simp [Moment.play], List.not_mem_nil⟩,
        fun kind _ hmem => hevents ▸ hmem, Or.inl hmarked⟩
    · obtain ⟨before, since, rfl, hp⟩ := hall k hheld.held
      have hsplit : m.play (before ++ .work :: since) = ((m.play before).turn .work).play since :=
        Moment.play_append _ _ _
      rw [hsplit] at hheld hmarks
      exact ⟨before, since ++ [t], by simp, hp.snoc hheld hmarks⟩

/-- **A group is asked for twice only after a late report.** When a group is asked for while the switch holds a request
under its key, this request was made by an item of work; and since then, with no other request under the key, an
objective with the key in its record was given up, or a report that the group was added or removed was delivered which
the switch had made before the request. -/
theorem asked_again_only_after_report {device : DeviceId} {delay : Nat} {isAutomatic : Bool} {store : Store}
    {metrics : Metrics} {turns : List Turn}
    (h : Allowed (fun m move => move.Admissible device m) (.start device delay (.fresh isAutomatic) store metrics)
      ((Moment.start device delay (.fresh isAutomatic) store metrics).script turns)) {k : Key} :
    let m := Moment.start device delay (.fresh isAutomatic) store metrics
    let q := m.play turns
    (q.turn .work).controller.switch.sent = q.controller.switch.sent ++ [k] →
    q.controller.switch.Holds (device, k) →
      ∃ before since, turns = before ++ .work :: since ∧
        let p := m.play before
        let n := p.turn .work
        n.controller.switch.sent = p.controller.switch.sent ++ [k] ∧
        (∃ later, q.controller.switch.sent = n.controller.switch.sent ++ later ∧ k ∉ later) ∧
        ∃ l t r, since = l ++ t :: r ∧ (t.Abandons (n.play l) k ∨
          ∃ kind, kind ≠ .error ∧ ⟨kind, k⟩ ∈ p.controller.switch.events ∧ t.Delivers (n.play l) ⟨kind, k⟩) := by
  intro m q hsent hheld
  obtain ⟨hsteady, hall⟩ := (steady_start device delay isAutomatic store metrics).pursued (fun _ => rfl) h
  obtain ⟨before, since, rfl, hp⟩ := hall k hheld
  have hsplit : q = ((m.play before).turn .work).play since := Moment.play_append _ _ _
  refine ⟨before, since, rfl, hp.made, ?_, hp.marked.resolve_left fun hmarked => ?_⟩
  · rw [hsplit]
    exact hp.sent
  · rw [← hsplit] at hmarked
    exact Moment.not_marked_of_sent hsent hmarked.1

/-! ## A sample -/

namespace Sample

/-- an objective is installed, removed and installed again, all before the report of its removal is delivered -/
def reinstalled : List Turn :=
  [.request 0 (.install 0 plain plainPlan), .work, .confirm plainPlan.topKey, .deliver, .work,
    .request 0 (.remove 1 plain), .request 0 (.install 2 plain plainPlan)]

/-- another objective over the same group -/
def double : Objective := ⟨3, .simple, [⟨[.setVlanId ⟨10⟩, .output ⟨7⟩]⟩], ⟨"sample"⟩, none⟩

def doublePlan : Plan := ⟨3, [inner ⟨10⟩], [], ⟨3, [[(inner ⟨10⟩).key]]⟩, (inner ⟨10⟩).key, (inner ⟨10⟩).id⟩

/-- then the report comes, and another objective over the same group is to be installed -/
def belated : List Turn := [.deliver, .request 0 (.install 3 double doublePlan)]

theorem admissible_belated : Allowed (fun m move => move.Admissible device m) start
    (start.script (reinstalled ++ .work :: belated)) := by
  have hplain : ∀ ticket, (Request.install ticket plain plainPlan).Planned device := fun _ => ⟨0, rfl⟩
  have hdouble : (Request.install 3 double doublePlan).Planned device := ⟨0, rfl⟩
  have hscript : start.script (reinstalled ++ .work :: belated) =
      [.handle (.request 0 (.install 0 plain plainPlan)), .work, .switch (.confirm plainPlan.topKey),
        .switch (.scramble []), .handle (.event ⟨.added, plainPlan.topKey⟩), .work,
        .handle (.request 0 (.remove 1 plain)), .handle (.request 0 (.install 2 plain plainPlan)), .work,
        .switch (.scramble []), .handle (.event ⟨.removed, plainPlan.topKey⟩),
        .handle (.request 0 (.install 3 double doublePlan))] := by
    decide +kernel
  rw [hscript]
  exact ⟨⟨hplain 0, List.not_mem_nil⟩, trivial, trivial, trivial, trivial, trivial, ⟨trivial, by decide +kernel⟩,
    ⟨hplain 2, by decide +kernel⟩, trivial, trivial, trivial, ⟨hdouble, by decide +kernel⟩, trivial⟩

end Sample

/-- what the second request of the sample was preceded by -/
theorem report_of_sample_is_late :
    let k := Sample.plainPlan.topKey
    let q := Sample.start.play (Sample.reinstalled ++ .work :: Sample.belated)
    (q.turn .work).controller.switch.sent = q.controller.switch.sent ++ [k] ∧
      ∃ before since, Sample.reinstalled ++ .work :: Sample.belated = before ++ .work :: since ∧
        ∃ l t r, since = l ++ t :: r ∧ (t.Abandons (((Sample.start.play before).turn .work).play l) k ∨
          ∃ kind, kind ≠ .error ∧ ⟨kind, k⟩ ∈ (Sample.start.play before).controller.switch.events ∧
            t.Delivers (((Sample.start.play before).turn .work).play l) ⟨kind, k⟩) := by
  have hsent : ((Sample.start.play (Sample.reinstalled ++ .work :: Sample.belated)).turn .work).controller.switch.sent =
      (Sample.start.play (Sample.reinstalled ++ .work :: Sample.belated)).controller.switch.sent ++
        [Sample.plainPlan.topKey] := by
    decide +kernel
  have hheld : (Sample.start.play (Sample.reinstalled ++ .work :: Sample.belated)).controller.switch.requested.contains
      (Sample.device, Sample.plainPlan.topKey) = true := by
    decide +kernel
  have h := Sample.admissible_belated
  unfold Sample.start at h hsent hheld ⊢
  obtain ⟨before, since, hsplit, -, -, hlate⟩ := asked_again_only_after_report h hsent (Registry.contains_iff.1 hheld)
  exact ⟨hsent, before, since, hsplit, hlate⟩

/-- **A group is asked for twice after a removal.** An objective is removed and at once installed again, and the switch
holds the request for its group when the report of the removal is delivered. No objective is given up after that
request, yet the group is asked for again when another objective wants it. -/
theorem asked_twice_after_removal :
    let k := Sample.plainPlan.topKey
    let p := Sample.start.play Sample.reinstalled
    let q := (p.turn .work).play Sample.belated
    Allowed (fun m move => move.Admissible Sample.device m) Sample.start
        (Sample.start.script (Sample.reinstalled ++ .work :: Sample.belated)) ∧
      (p.turn .work).controller.switch.sent = p.controller.switch.sent ++ [k] ∧
      q.controller.switch.requested.contains (Sample.device, k) = true ∧
      (∀ t ∈ Sample.belated, ∀ m j, ¬t.Abandons m j) ∧
      (q.turn .work).controller.switch.sent = (p.turn .work).controller.switch.sent ++ [k] := by
  refine ⟨Sample.admissible_belated, by decide +kernel, by decide +kernel, ?_, by decide +kernel⟩
  intro t ht m j
  simp only [Sample.belated, List.mem_cons, List.not_mem_nil, or_false] at ht
  rintro ⟨-, s, hs, ha⟩
  rcases ht with rfl | rfl
  · cases hs
  · cases hs
    exact ha

end FlowGroups
