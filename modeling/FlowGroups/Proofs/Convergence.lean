/-
Where an installation ends. One objective is installed over an empty switch. Its groups are confirmed or installed in any
order and with any delay, events are delivered, delivered again or lost, and sweeps run now and then.

- `installation_converges`: no group is ever asked for twice, and once the switch holds no request and nothing that is
  pending stands, the objective is answered with success and recorded, nothing is pending, and its groups are there.
-/
import FlowGroups.Proofs.Ledger
import FlowGroups.Proofs.Progress
import FlowGroups.Proofs.Records

namespace FlowGroups

/-! ## One objective -/

/-- a controller that works on one plan only, and has asked for some of its groups -/
structure Settling (device : DeviceId) (ticket : Ticket) (o : Objective) (p : Plan) (c : Controller) : Prop where
  known : c.switch.All fun place d => d ∈ p.descriptors ∧ place = (device, d.key)
  once : c.switch.sent.Nodup
  coming : ∀ k ∈ c.switch.sent, c.Stands k ∨ k ∈ c.requested
  awaited : ∀ k ∈ c.requested, k ∈ c.tracker.pendingKeys
  settled : ∀ d ∈ p.descriptors, d.key ∈ c.tracker.pendingKeys ∨ c.Stands d.key
  registered : ∀ k r, c.tracker.Registered k r → k = p.topKey ∧ r = ⟨ticket, o, p.record, p.topId⟩
  answered : ∀ reply ∈ c.replies, reply = ⟨ticket, .installed p.topId⟩

namespace Settling

variable {device : DeviceId} {ticket : Ticket} {o : Objective} {p : Plan} {c d : Controller}

theorem congr (h : Settling device ticket o p c) (hd : d.device = c.device) (hs : d.switch = c.switch)
    (ht : d.tracker = c.tracker) (hr : d.requested = c.requested) (ha : d.replies = c.replies) :
    Settling device ticket o p d := by
  have hstands : ∀ k, d.Stands k ↔ c.Stands k := fun k => by rw [Controller.Stands, Controller.Stands, hd, hs]
  refine ⟨hs ▸ h.known, hs ▸ h.once, ?_, hr ▸ ht ▸ h.awaited, ?_, ht ▸ h.registered, ha ▸ h.answered⟩
  · intro k hk
    rw [hs] at hk
    rw [hstands, hr]
    exact h.coming k hk
  · intro e he
    rw [hstands, ht]
    exact h.settled e he

/-- a group is asked for that neither stands nor is on its way -/
theorem asked {e : Descriptor} (h : Settling device ticket o p c) (he : e ∈ p.descriptors) (hhome : e.device = device)
    (hr : e.key ∉ c.requested) (hs : ¬c.Stands e.key) : Settling device ticket o p (c.asked e) := by
  have hnew : e.key ∉ c.switch.sent := fun hsent => (h.coming e.key hsent).elim hs hr
  have hpending : e.key ∈ c.tracker.pendingKeys := (h.settled e he).resolve_right hs
  refine ⟨h.known.addGroup ⟨he, by rw [hhome]⟩, ?_, ?_, ?_, ?_, h.registered, h.answered⟩
  · simp only [Controller.asked, Switch.sent_addGroup]
    exact h.once.append (List.nodup_singleton _) (List.disjoint_singleton.2 hnew)
  · intro k hk
    simp only [Controller.asked, Switch.sent_addGroup, List.mem_append, List.mem_singleton] at hk
    rcases hk with hk | rfl
    · exact (h.coming k hk).imp Controller.stands_asked (List.mem_cons_of_mem _)
    · exact Or.inr List.mem_cons_self
  · intro k hk
    rcases List.mem_cons.1 hk with rfl | hk
    · exact hpending
    · exact h.awaited k hk
  · intro f hf
    exact (h.settled f hf).imp_right Controller.stands_asked

theorem submit {e : Descriptor} (h : Settling device ticket o p c) (he : e ∈ p.descriptors)
    (hhome : e.device = device) : Settling device ticket o p (c.submit e).1 := by
  unfold Controller.submit
  split_ifs with hr hs
  · exact h
  · exact h
  · exact h.asked he hhome hr fun hst => hs (Controller.stands_iff.1 hst)

/-- a group stands, and its key is no longer pending -/
theorem resolved {k : Key} {t : Tracker} (h : Settling device ticket o p c) (hk : c.Stands k)
    (hpending : ∀ j, j ≠ k → j ∈ c.tracker.pendingKeys → j ∈ t.pendingKeys)
    (hregistered : ∀ j r, t.Registered j r → c.tracker.Registered j r) :
    Settling device ticket o p { c.release k with tracker := t } := by
  refine ⟨h.known, h.once, ?_, ?_, ?_, fun j r hr => h.registered j r (hregistered j r hr), h.answered⟩
  · intro j hj
    by_cases hjk : j = k
    · exact Or.inl (hjk ▸ hk)
    · exact (h.coming j hj).imp_right fun hr => List.mem_filter.2 ⟨hr, by simpa using hjk⟩
  · intro j hj
    obtain ⟨hr, hjk⟩ := List.mem_filter.1 hj
    exact hpending j (by simpa using hjk) (h.awaited j hr)
  · intro e he
    by_cases hek : e.key = k
    · exact Or.inr (show c.Stands e.key from hek ▸ hk)
    · exact (h.settled e he).imp_left (hpending e.key hek)

/-- the objective is answered with the id of its top-level group, whether or not this is on the device -/
theorem recorded (h : Settling device ticket o p c) (hp : p.Complete)
    (hsame : ∀ d ∈ p.descriptors, ∀ e ∈ p.descriptors, d.key = e.key → d = e) :
    Settling device ticket o p (c.recorded p.topKey ⟨ticket, o, p.record, p.topId⟩) := by
  have hid : ((c.group? p.topKey).map (·.id)).getD p.topId = p.topId := by
    cases hg : c.group? p.topKey with
    | none => rfl
    | some e =>
      obtain ⟨he, hplace⟩ := h.known _ e (Or.inl hg)
      obtain ⟨d, hd, hkey, hdid⟩ := hp.named
      have hek : p.topKey = e.key := congrArg Prod.snd hplace
      rw [Option.map_some, Option.getD_some, hsame e he d hd (hek.symm.trans hkey.symm), hdid]
  refine ⟨h.known, h.once, h.coming, h.awaited, h.settled, h.registered, ?_⟩
  intro reply hreply
  rcases List.mem_append.1 hreply with hreply | hreply
  · exact h.answered reply hreply
  · rw [List.mem_singleton.1 hreply, hid]

theorem confirm {k : Key} (h : Settling device ticket o p c) (hp : p.Complete)
    (hsame : ∀ d ∈ p.descriptors, ∀ e ∈ p.descriptors, d.key = e.key → d = e) (hk : c.Stands k)
    (hdeferred : ∀ n, c.deferred.get? n = none) : Settling device ticket o p (c.confirm k).1 := by
  rcases c.confirm_cases k with ⟨ids, -, he⟩ | ⟨rs, -, ho, he⟩ | he
  · rw [he]
    exact h.resolved hk (fun j hjk => Tracker.pending_advance ids hjk) fun j r hr => hr
  · have hregistrants : ∀ r ∈ rs.list, k = p.topKey ∧ r = ⟨ticket, o, p.record, p.topId⟩ := fun r hr =>
      h.registered k r ⟨rs, ho, hr⟩
    have hdischarged := h.resolved hk (t := c.tracker.discharge k) (fun j hjk => Tracker.pending_discharge hjk)
      fun j r hr => hr.of_discharge.2
    rw [he]
    have hall := Controller.completeAll_keeps (k := k)
      (c := { c.release k with tracker := c.tracker.discharge k })
      (P := fun out d _ => Settling device ticket o p d ∧ (∀ n, d.deferred.get? n = none) ∧
        ∀ r ∈ out, k = p.topKey ∧ r = ⟨ticket, o, p.record, p.topId⟩) ?_
      ⟨hdischarged, hdeferred, hregistrants⟩
    · exact hall.1
    · rintro r out d - ⟨hd, hnone, hout⟩
      obtain ⟨rfl, rfl⟩ := hout r List.mem_cons_self
      rcases d.complete_cases p.topKey ⟨ticket, o, p.record, p.topId⟩ with ⟨a, ha, -⟩ | ⟨-, hc⟩
      · rw [hnone] at ha
        cases ha
      · rw [hc]
        exact ⟨hd.recorded hp hsame, hnone, fun s hs => hout s (List.mem_cons_of_mem _ hs)⟩
  · rw [he]
    exact h.resolved hk (fun j _ hj => hj) fun j r hr => hr

/-- whatever was asked for belongs to the plan -/
theorem of_sent (h : Settling device ticket o p c) (hr : ∀ k ∈ c.requested, c.Knows k) {k : Key}
    (hk : k ∈ c.switch.sent) : ∃ d ∈ p.descriptors, d.key = k := by
  have hknows : c.Knows k := (h.coming k hk).elim Controller.Stands.knows (hr k)
  obtain ⟨d, hd⟩ : ∃ d, c.switch.installed.get? (c.device, k) = some d ∨ c.switch.requested.get? (c.device, k) = some d :=
    hknows.elim (fun ⟨d, hd⟩ => ⟨d, Or.inl hd⟩) fun ⟨d, hd⟩ => ⟨d, Or.inr hd⟩
  obtain ⟨hmem, hplace⟩ := h.known _ d hd
  exact ⟨d, hmem, (congrArg Prod.snd hplace).symm⟩

/-- the groups on the device, when all groups of the plan stand -/
theorem installed_perm (h : Settling device ticket o p c)
    (hsame : ∀ d ∈ p.descriptors, ∀ e ∈ p.descriptors, d.key = e.key → d = e)
    (hstand : ∀ d ∈ p.descriptors, c.Stands d.key) :
    c.switch.installedGroups.Perm (Descriptor.distinct p.descriptors) := by
  have hdistinct := Descriptor.mem_distinct p.descriptors
  have hplaces : c.switch.installed.entries.map Prod.fst =
      c.switch.installedGroups.map fun d => (device, d.key) := by
    rw [Switch.installedGroups, Registry.values, List.map_map]
    refine List.map_congr_left fun e he => ?_
    exact (h.known e.1 e.2 (Or.inl (Registry.mem_entries_iff.1 he))).2
  have hnodup : c.switch.installedGroups.Nodup :=
    List.Nodup.of_map _ (hplaces ▸ c.switch.installed.nodup)
  refine (List.perm_ext_iff_of_nodup hnodup (Descriptor.nodup_distinct p.descriptors).of_map).2 fun d => ?_
  rw [Switch.installedGroups, Registry.mem_values_iff]
  constructor
  · rintro ⟨place, hd⟩
    have hmem := (h.known place d (Or.inl hd)).1
    obtain ⟨e, he, hkey⟩ := hdistinct.2 d hmem
    rw [hsame d hmem e (hdistinct.1 e he) hkey.symm]
    exact he
  · intro hd
    have hmem := hdistinct.1 d hd
    obtain ⟨e, he⟩ := hstand d hmem
    obtain ⟨hemem, hplace⟩ := h.known _ e (Or.inl he)
    rw [← hsame d hmem e hemem (congrArg Prod.snd hplace)] at he
    exact ⟨_, he⟩

end Settling

/-! ## Runs of one installation -/

/-- groups are confirmed or installed, events get lost or repeated, sweeps run; what is reported added is there -/
def Move.Settles (m : Moment) : Move → Prop
  | .work | .handle .sweep | .switch (.confirm _) | .switch (.installSilently _) | .switch (.scramble _) => True
  | .handle (.event e) => e.kind = .added ∧ m.controller.Stands e.key
  | .handle (.request ..) | .handle (.expire _) | .switch (.reject _) => False

instance (m : Moment) : ∀ move : Move, Decidable (move.Settles m)
  | .work | .handle .sweep | .switch (.confirm _) | .switch (.installSilently _) | .switch (.scramble _) =>
    .isTrue trivial
  | .handle (.event _) => inferInstanceAs (Decidable (_ ∧ _))
  | .handle (.request ..) | .handle (.expire _) | .switch (.reject _) => .isFalse id

theorem Move.Settles.request? {m : Moment} {move : Move} (h : move.Settles m) : move.request? = none := by
  cases move with
  | handle s =>
    cases s with
    | request now r => exact h.elim
    | _ => rfl
  | _ => rfl

theorem Move.Settles.not_rejects {m : Moment} {move : Move} (h : move.Settles m) : ¬move.rejects := by
  cases move with
  | switch sm =>
    cases sm with
    | reject k => exact h.elim
    | _ => exact Bool.false_ne_true
  | _ => exact Bool.false_ne_true

/-- all that is known of a moment of the run -/
structure Installing (device : DeviceId) (ticket : Ticket) (o : Objective) (p : Plan) (m : Moment) : Prop where
  accepted : m.accepted = [.install ticket o p]
  provided : Provided device m.accepted m.controller m.queue
  founded : Founded m.controller.Stands device m.accepted m.controller m.queue
  booked : Booked [] .empty m.accepted [] m.controller
  settling : Settling device ticket o p m.controller

namespace Installing

variable {device : DeviceId} {ticket : Ticket} {o : Objective} {p : Plan} {m : Moment}

theorem deferred (h : Installing device ticket o p m) (n : UInt32) : m.controller.deferred.get? n = none := by
  rw [Option.eq_none_iff_forall_ne_some]
  intro a ha
  have hmem := h.founded.deferred n a ha
  rw [h.accepted] at hmem
  cases List.mem_singleton.1 hmem

/-- work asks for groups of the plan, or resolves keys that stand -/
theorem process (h : Installing device ticket o p m) (hp : p.Complete)
    (hsame : ∀ d ∈ p.descriptors, ∀ e ∈ p.descriptors, d.key = e.key → d = e) {w : Work} {ws : List Work}
    (hq : m.queue = w :: ws) : Settling device ticket o p (m.controller.process w).1 := by
  have hw := h.founded.work w (hq ▸ List.mem_cons_self)
  have hmem : .install ticket o p ∈ m.accepted := h.accepted ▸ List.mem_cons_self
  have hhome := ((h.founded.planned _ hmem).wellFormed rfl).home
  cases w with
  | create d =>
    obtain ⟨r, hr, q, hrq, hd⟩ := hw
    rw [h.accepted] at hr
    obtain rfl := List.mem_singleton.1 hr
    cases hrq
    have hd : d ∈ p.descriptors := List.mem_append_left _ hd
    exact h.settling.submit hd (hhome d hd)
  | element e =>
    obtain ⟨⟨r, hr, q, hrq, he⟩, -⟩ := hw
    rw [h.accepted] at hr
    obtain rfl := List.mem_singleton.1 hr
    cases hrq
    have hd : e.descriptor ∈ p.descriptors := List.mem_append_right _ (List.mem_map_of_mem he)
    simp only [Controller.process, Controller.act, hp.creates e he, Bool.false_eq_true, if_false]
    exact h.settling.submit hd (hhome _ hd)
  | resolve k => exact h.settling.confirm hp hsame hw h.deferred

theorem step (h : Installing device ticket o p m) (hp : p.Complete)
    (hsame : ∀ d ∈ p.descriptors, ∀ e ∈ p.descriptors, d.key = e.key → d = e) {move : Move} (hm : move.Settles m) :
    Installing device ticket o p (m.step move) := by
  obtain ⟨hremoves, hall⟩ := Move.of_silent hm.request?
  have hadmissible := hall device m
  have hstands : ∀ k, m.controller.Stands k → (m.step move).controller.Stands k := fun k =>
    Moment.stands_step hremoves
  refine ⟨(Moment.accepted_step_of_silent hm.request?).trans h.accepted,
    h.provided.step hadmissible hremoves hm.not_rejects, ?_, h.booked.step move, ?_⟩
  · refine (h.founded.mono hstands).step hadmissible hremoves hstands ?_
    rintro k rfl
    exact hstands k hm.2
  · cases move with
    | work =>
      cases hq : m.queue with
      | nil =>
        simp only [Moment.step, Moment.work, hq]
        exact h.settling.congr rfl rfl rfl rfl rfl
      | cons w ws =>
        simp only [Moment.step, Moment.work, hq]
        exact h.process hp hsame hq
    | handle s =>
      rw [Moment.step]
      split_ifs
      · cases s with
        | request now r => exact hm.elim
        | event e =>
          obtain ⟨kind, k⟩ := e
          obtain ⟨rfl, -⟩ := hm
          exact h.settling
        | sweep => exact h.settling
        | expire now => exact hm.elim
      · exact h.settling
    | switch sm =>
      have hs := h.settling
      refine ⟨hs.known.move sm, (Switch.sent_move _ sm).symm ▸ hs.once, ?_, hs.awaited, ?_, hs.registered, hs.answered⟩
      · intro k hk
        simp only [Moment.step, Switch.sent_move] at hk
        exact (hs.coming k hk).imp_left (hstands k)
      · intro d hd
        exact (hs.settled d hd).imp_right (hstands d.key)

/-- the request is accepted, and its elements are registered -/
theorem start {index : UInt32} (hplan : ((Planner.mk device index).build o).1 = .ok p) (delay : Nat)
    (isAutomatic : Bool) (metrics : Metrics) (now : Nat) :
    Installing device ticket o p ((Moment.start device delay (.fresh isAutomatic) .empty metrics).step
      (.handle (.request now (.install ticket o p)))) := by
  let c := Controller.start device delay (.fresh isAutomatic) .empty metrics
  let t := c.tracker.registerObjective p.topKey ⟨ticket, o, p.record, p.topId⟩ now
  have hplanned : (Request.install ticket o p).Planned device := ⟨index, hplan⟩
  have hidle : (Moment.start device delay (.fresh isAutomatic) .empty metrics).Idle := ⟨rfl, rfl⟩
  have hpending : ∀ d ∈ p.descriptors, d.key ∈ (t.registerAll p.topKey p.elements).1.pendingKeys := fun d hd =>
    Tracker.pending_of_complete (Planner.complete_of_build hplan) _ _ now hd
  have hregistered : ∀ k r, (t.registerAll p.topKey p.elements).1.Registered k r →
      k = p.topKey ∧ r = ⟨ticket, o, p.record, p.topId⟩ := by
    rintro k r ⟨rs, hk, hr⟩
    rw [Tracker.objectives_registerAll] at hk
    rcases Tracker.registered_registerObjective ⟨rs, hk, hr⟩ with ⟨rs, hnone, -⟩ | hnew
    · cases hnone
    · exact hnew
  rw [Moment.step, if_pos hidle]
  refine ⟨rfl, (provided_start device delay (.fresh isAutomatic) .empty metrics).install hplanned now,
    (founded_start _ device delay (.fresh isAutomatic) .empty metrics).request hplanned now Bool.false_ne_true,
    (booked_start device delay (.fresh isAutomatic) .empty metrics).install now ticket o p, ?_⟩
  change Settling device ticket o p (c.opening (.request now (.install ticket o p))).1
  rw [Controller.opening_install]
  refine ⟨Switch.all_fresh _ isAutomatic, List.nodup_nil, ?_, ?_, fun d hd => Or.inl (hpending d hd), hregistered, ?_⟩
  · intro k hk
    cases hk
  · intro k hk
    cases hk
  · intro reply hreply
    cases hreply

end Installing

/-! ## The end -/

theorem Written.eq_of_nil {acc : List Request} {initial s : Store} {rs : List Reply} (h : Written acc [] initial rs s)
    (hrs : rs = []) : s = initial := by
  cases h with
  | start => rfl
  | _ => simp at hrs

/-- the one request is answered with success, so its record was put -/
theorem Written.eq_of_installed {initial s : Store} {rs : List Reply} {ticket ticket' : Ticket} {o : Objective} {p : Plan}
    {id : GroupId} (h : Written [.install ticket o p] [] initial rs s) (hrs : rs = [⟨ticket', .installed id⟩]) :
    s = initial.put p.record := by
  cases h with
  | start => cases hrs
  | installed t o' p' id' h hr =>
    obtain ⟨hnil, -⟩ := (List.append_eq_singleton_iff.1 hrs).resolve_right (by simp)
    cases List.mem_singleton.1 hr
    rw [h.eq_of_nil hnil]
  | extended a existing id' h hr => cases List.mem_singleton.1 hr
  | shortened t o' port existing i id' h hr => cases List.mem_singleton.1 hr
  | removed t o' h hr => cases List.mem_singleton.1 hr
  | failed t e h =>
    obtain ⟨-, hlast⟩ := (List.append_eq_singleton_iff.1 hrs).resolve_right (by simp)
    cases hlast

namespace Installing

variable {device : DeviceId} {ticket : Ticket} {o : Objective} {p : Plan} {m : Moment}

/-- between handlers, when nothing is held and nothing pending stands, nothing is pending -/
theorem pending_eq_nil (h : Installing device ticket o p m) (hq : m.queue = [])
    (hheld : m.controller.switch.requested = .empty)
    (hpending : ∀ k ∈ m.controller.tracker.pendingKeys, ¬m.controller.Stands k) :
    m.controller.tracker.pendingKeys = [] := by
  by_contra hne
  have hprovided := h.provided
  rw [hq] at hprovided
  obtain ⟨k, hk⟩ := List.exists_mem_of_ne_nil _ hne
  obtain ⟨j, hj, hstands | ⟨d, hd⟩⟩ := hprovided.exists_known k.level k hk rfl
  · exact hpending j hj hstands
  · rw [hheld] at hd
    cases hd

/-- when nothing is pending, the one answer has been given -/
theorem replies_eq (h : Installing device ticket o p m) (hobjectives : m.controller.tracker.objectives = .empty) :
    m.controller.replies = [⟨ticket, .installed p.topId⟩] := by
  have hmem : .install ticket o p ∈ m.accepted := h.accepted ▸ List.mem_cons_self
  have hdistinct : m.Distinct := by
    rw [Moment.Distinct, h.accepted]
    exact List.nodup_singleton _
  have hall : m.controller.replies = List.replicate m.controller.replies.length ⟨ticket, .installed p.topId⟩ :=
    List.eq_replicate_of_mem h.settling.answered
  rcases h.booked.stands hdistinct hmem with ⟨hone, -⟩ | ⟨-, hone, -⟩ | ⟨-, -, -, a, ha, -⟩
  · rw [Moment.answers, hall] at hone
    simp only [List.map_replicate, Request.ticket, List.count_replicate_self] at hone
    rw [hone] at hall
    exact hall
  · simp [Moment.registrations, Tracker.registrants, hobjectives, Registry.values, Registry.empty] at hone
  · cases ha

end Installing

/-- **One installation converges.** An objective whose groups are the same wherever their keys are is installed over an
empty store and an empty switch, with any confirmations, silent installations, events for groups that stand, and sweeps.
Then only groups of the plan are asked for, none twice. Between handlers, if the switch holds no request and no pending
key stands, the request is answered with success and the id of the top-level group, the record of the plan is stored,
nothing is pending or requested, and the groups of the plan are on the device, one for each key. -/
theorem installation_converges {device : DeviceId} {index : UInt32} {delay : Nat} {isAutomatic : Bool}
    {metrics : Metrics} {now : Nat} {ticket : Ticket} {o : Objective} {p : Plan} {moves : List Move}
    (hplan : ((Planner.mk device index).build o).1 = .ok p)
    (hsame : ∀ d ∈ p.descriptors, ∀ e ∈ p.descriptors, d.key = e.key → d = e)
    (h : Allowed (fun m move => move.Settles m)
      ((Moment.start device delay (.fresh isAutomatic) .empty metrics).step
        (.handle (.request now (.install ticket o p)))) moves) :
    let m := ((Moment.start device delay (.fresh isAutomatic) .empty metrics).step
      (.handle (.request now (.install ticket o p)))).run moves
    let c := m.controller
    (c.switch.sent.Nodup ∧ ∀ k ∈ c.switch.sent, ∃ d ∈ p.descriptors, d.key = k) ∧
      (m.queue = [] → c.switch.requested = .empty → (∀ k ∈ c.tracker.pendingKeys, ¬c.Stands k) →
        c.replies = [⟨ticket, .installed p.topId⟩] ∧
        c.store = Store.empty.put p.record ∧ c.store.get o.id = .ok (some p.record) ∧
        (c.tracker.waiting = [] ∧ c.tracker.groups = .empty ∧ c.tracker.objectives = .empty) ∧ c.requested = [] ∧
        c.switch.installedGroups.Perm (Descriptor.distinct p.descriptors)) := by
  intro m c
  have hcomplete := Planner.complete_of_build hplan
  have hm : Installing device ticket o p m :=
    h.keeps (P := Installing device ticket o p) (fun _ _ hmove hm => hm.step hcomplete hsame hmove)
      (.start hplan delay isAutomatic metrics now)
  refine ⟨⟨hm.settling.once, fun k hk => hm.settling.of_sent hm.provided.requested hk⟩, ?_⟩
  · intro hq hheld hpending
    have hnone := hm.pending_eq_nil hq hheld hpending
    obtain ⟨hwaiting, hgroups, hobjectives⟩ := hm.provided.consistent.eq_empty hnone
    have hreplies := hm.replies_eq hobjectives
    have hwritten := hm.booked.written
    rw [hm.accepted] at hwritten
    have hstore : c.store = Store.empty.put p.record := hwritten.eq_of_installed hreplies
    obtain ⟨hid, hfits⟩ := Planner.record_of_build hplan
    have hstand : ∀ d ∈ p.descriptors, c.Stands d.key := fun d hd =>
      (hm.settling.settled d hd).resolve_left fun hk => List.not_mem_nil (hnone ▸ hk)
    refine ⟨hreplies, hstore, ?_, ⟨hwaiting, hgroups, hobjectives⟩, ?_, ?_⟩
    · rw [hstore, Store.get_put hfits, if_pos hid.symm]
    · rw [List.eq_nil_iff_forall_not_mem]
      intro k hk
      exact List.not_mem_nil (hnone ▸ hm.settling.awaited k hk)
    · exact hm.settling.installed_perm hsame hstand

namespace Sample

/-- both groups are confirmed, one after the other; the first is reported once more, and a sweep finds the second -/
def swept : List Move :=
  .work :: confirmed (inner ⟨10⟩).key ++ [.work, .work, .handle (.event ⟨.added, (inner ⟨10⟩).key⟩), .work,
    .switch (.installSilently (outer ⟨10⟩).key), .handle .sweep, .work]

end Sample

/-- the sample converges, with an event too many and another lost -/
theorem sample_converges :
    let m := (Sample.start.step (.handle (.request 0 Sample.request))).run Sample.swept
    m.controller.switch.sent.Nodup ∧ m.controller.replies = [⟨0, .installed Sample.plan.topId⟩] ∧
      m.controller.store.get 1 = .ok (some Sample.plan.record) ∧
      m.controller.switch.installedGroups.Perm (Descriptor.distinct Sample.plan.descriptors) := by
  have hplan : ((Planner.mk Sample.device 0).build Sample.objective).1 = .ok Sample.plan := rfl
  have h : Allowed (fun m move => move.Settles m) (Sample.start.step (.handle (.request 0 Sample.request)))
      Sample.swept := by
    decide +kernel
  have hq : ((Sample.start.step (.handle (.request 0 Sample.request))).run Sample.swept).queue = [] := by
    decide +kernel
  have hheld : ((Sample.start.step (.handle (.request 0 Sample.request))).run Sample.swept).controller.switch.requested =
      .empty := by
    decide +kernel
  have hpending : ∀ k ∈
      ((Sample.start.step (.handle (.request 0 Sample.request))).run Sample.swept).controller.tracker.pendingKeys,
      ¬((Sample.start.step (.handle (.request 0 Sample.request))).run Sample.swept).controller.Stands k := by
    decide +kernel
  unfold Sample.start Sample.request at h hq hheld hpending ⊢
  obtain ⟨⟨honce, -⟩, hend⟩ := installation_converges hplan (by decide +kernel) h
  obtain ⟨hreplies, -, hstored, -, -, hgroups⟩ := hend hq hheld hpending
  exact ⟨honce, hreplies, hstored, hgroups⟩

end FlowGroups
