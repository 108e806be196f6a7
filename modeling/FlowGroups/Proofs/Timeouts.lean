/-
When objectives run out of time. A key that is resolved completes the objectives that wait for it, unless elements wait
for it too: then only these move on, and the objectives go on waiting for a resolution that may never come.

- `expired_only_past_elements`: an objective expires only if, each time its top-level key was resolved, an element waited
  for that key.
- `expired_though_confirmed`: an objective that expires although its group was confirmed in time and reported added.
-/
import FlowGroups.Proofs.Ledger

namespace FlowGroups

/-! ## Answers accumulate -/

theorem Written.grows {accepted : List Request} {base rs : List Reply} {initial s : Store}
    (h : Written accepted base initial rs s) : base <+: rs := by
  induction h with
  | start => exact List.prefix_refl base
  | installed _ _ _ _ _ _ ih => exact ih.trans (List.prefix_append _ _)
  | extended _ _ _ _ _ _ ih => exact ih.trans (List.prefix_append _ _)
  | shortened _ _ _ _ _ _ _ _ _ ih => exact ih.trans (List.prefix_append _ _)
  | removed _ _ _ _ ih => exact ih.trans (List.prefix_append _ _)
  | failed _ _ _ ih => exact ih.trans (List.prefix_append _ _)

/-- nothing that was answered is taken back -/
theorem Booked.replies_grow {device : DeviceId} {base : List Reply} {initial : Store} {m : Moment}
    (h : Booked base initial m.accepted [] m.controller) (hd : m.Distinct) {moves : List Move}
    (ha : Allowed (fun m move => move.Admissible device m) m moves) :
    m.controller.replies <+: (m.run moves).controller.replies :=
  (h.rebase.run hd ha).1.written.grows

theorem Moment.answers_eq_zero {m n : Moment} {ticket : Ticket} (hp : m.controller.replies <+: n.controller.replies)
    (hn : n.answers ticket = 0) : m.answers ticket = 0 := by
  have hle : m.answers ticket ≤ n.answers ticket := (hp.sublist.map Reply.ticket).count_le ticket
  omega

/-- completed objectives are all answered -/
theorem Controller.answered_completeAll {c : Controller} {k : Key} {rs : List Registrant} {r : Registrant}
    (hr : r ∈ rs) : r.ticket ∈ (c.completeAll k rs).1.replies.map (·.ticket) := by
  have hkeep : ∀ (d : Controller) (s : Registrant), d.replies.map (·.ticket) ++ [s.ticket] <+:
      (d.complete k s).1.replies.map (·.ticket) := by
    intro d s
    rcases d.complete_cases k s with ⟨a, -, he⟩ | ⟨-, he⟩
    · simp [he, extend_eq, recorded]
    · simp [he, recorded]
  have hall := completeAll_keeps (k := k) (c := c)
    (P := fun out d _ => ∀ s ∈ rs, s ∈ out ∨ s.ticket ∈ d.replies.map (·.ticket)) ?_ fun s hs => Or.inl hs
  · exact (hall r hr).resolve_left List.not_mem_nil
  · intro s out d _ h t ht
    rcases h t ht with hout | hdone
    · rcases List.mem_cons.1 hout with rfl | hout
      · exact Or.inr ((hkeep d t).subset (List.mem_append_right _ List.mem_cons_self))
      · exact Or.inl hout
    · exact Or.inr ((hkeep d s).subset (List.mem_append_left _ hdone))

/-- an objective is answered when its key is resolved and no element waits for the key -/
theorem Controller.answered_confirm {c : Controller} {k : Key} {r : Registrant}
    (hn : c.tracker.groups.get? k = none) (hr : c.tracker.Registered k r) :
    r.ticket ∈ (c.confirm k).1.replies.map (·.ticket) := by
  obtain ⟨rs, hrs, hmem⟩ := hr
  have hresolve : c.tracker.resolve k = (c.tracker.discharge k, .complete rs.list) := by
    simp only [Tracker.resolve, hn, hrs, Tracker.discharge]
  have he : c.confirm k = { c.release k with tracker := c.tracker.discharge k }.completeAll k rs.list := by
    simp only [confirm, release, hresolve]
  rw [he]
  exact answered_completeAll hmem

/-! ## Resolutions along a run -/

/-- an added event for the key is handled, or its resolution is next in the queue, from an event or a sweep -/
def Move.Resolves (m : Moment) (k : Key) : Move → Prop
  | .handle (.event e) => m.Idle ∧ e = ⟨.added, k⟩
  | .work => m.queue.head? = some (.resolve k)
  | _ => False

instance (m : Moment) (k : Key) : ∀ move : Move, Decidable (move.Resolves m k)
  | .handle (.event _) => inferInstanceAs (Decidable (_ ∧ _))
  | .work => inferInstanceAs (Decidable (_ = _))
  | .handle (.request ..) | .handle .sweep | .handle (.expire _) | .switch _ => .isFalse id

namespace Moment

/-- does an element wait for the key? -/
def Awaits (m : Moment) (k : Key) : Prop := ∃ ids, m.controller.tracker.groups.get? k = some ids

/-- the head of a queue that runs empty is worked off, and until then the tracker stays as it is -/
theorem exists_work {m : Moment} {w : Work} {ws : List Work} (hq : m.queue = w :: ws) {moves : List Move}
    (hend : (m.run moves).queue = []) :
    ∃ l r, moves = l ++ .work :: r ∧ (m.run l).queue = w :: ws ∧
      (m.run l).controller.tracker = m.controller.tracker := by
  induction moves generalizing m with
  | nil =>
    rw [run, List.foldl_nil, hq] at hend
    cases hend
  | cons move moves ih =>
    have hstay : (m.step move).queue = w :: ws → (m.step move).controller.tracker = m.controller.tracker →
        ∃ l r, move :: moves = l ++ .work :: r ∧ (m.run l).queue = w :: ws ∧
          (m.run l).controller.tracker = m.controller.tracker := by
      intro hqueue htracker
      obtain ⟨l, r, rfl, hl, ht⟩ := ih hqueue hend
      exact ⟨move :: l, r, rfl, hl, ht.trans htracker⟩
    cases move with
    | work => exact ⟨[], moves, rfl, hq, rfl⟩
    | handle s =>
      have hbusy : ¬m.Idle := fun hidle => List.cons_ne_nil w ws (hq.symm.trans hidle.1)
      have hstep : m.step (.handle s) = m := if_neg hbusy
      exact hstay (by rw [hstep]; exact hq) (by rw [hstep])
    | switch sm => exact hstay hq rfl

end Moment

/-! ## Who runs out of time -/

section Expiry

variable {device : DeviceId} {base : List Reply} {initial : Store} {m : Moment} {ticket : Ticket} {o : Objective}
  {p : Plan}

/-- if a request that waits is still not answered after its key is resolved, an element waited for the key -/
theorem Booked.awaits_of_resolve (h : Booked base initial m.accepted [] m.controller) (hd : m.Distinct)
    (hr : .install ticket o p ∈ m.accepted) {ws : List Work} (hq : m.queue = .resolve p.topKey :: ws)
    (hbefore : m.answers ticket = 0) (hafter : (m.step .work).answers ticket = 0) : m.Awaits p.topKey := by
  by_contra hnone
  have hgroups : m.controller.tracker.groups.get? p.topKey = none :=
    Option.eq_none_iff_forall_ne_some.2 fun ids hids => hnone ⟨ids, hids⟩
  rcases h.stands hd hr with hanswered | hwaits | haside
  · have hone : m.answers ticket = 1 := hanswered.1
    omega
  · obtain ⟨-, -, -, o', p', s, he, hreg, hs, -⟩ := hwaits
    cases he
    change s.ticket = ticket at hs
    have hdone : s.ticket ∈ (m.step .work).controller.replies.map (·.ticket) := by
      simp only [Moment.step, Moment.work, hq]
      exact Controller.answered_confirm hgroups hreg
    rw [hs] at hdone
    have hpos : 0 < (m.step .work).answers ticket := List.count_pos_iff.2 hdone
    omega
  · obtain ⟨-, -, -, a, ha, -⟩ := haside
    cases ha

/-- so it is wherever its key is resolved in a run that leaves the request without an answer -/
theorem Booked.awaits_of_work (h : Booked base initial m.accepted [] m.controller) (hd : m.Distinct)
    (hr : .install ticket o p ∈ m.accepted) {l r : List Move} {ws : List Work}
    (ha : Allowed (fun m move => move.Admissible device m) m (l ++ .work :: r))
    (hzero : (m.run (l ++ .work :: r)).answers ticket = 0) (hq : (m.run l).queue = .resolve p.topKey :: ws) :
    (m.run l).Awaits p.topKey := by
  obtain ⟨hl, hw, hrest⟩ := allowed_append.1 ha
  obtain ⟨hbl, hdl⟩ := h.run hd hl
  have hbw : Booked base initial ((m.run l).step .work).accepted [] ((m.run l).step .work).controller := hbl.step _
  have hrun : m.run (l ++ .work :: r) = ((m.run l).step .work).run r := Moment.run_append m l _
  rw [hrun] at hzero
  have hafter := Moment.answers_eq_zero (hbw.replies_grow (hdl.step hw) hrest) hzero
  have hstep : (m.run l).controller.replies <+: ((m.run l).step .work).controller.replies :=
    hbl.replies_grow hdl (show Allowed (fun m move => move.Admissible device m) (m.run l) [.work] from ⟨hw, trivial⟩)
  exact hbl.awaits_of_resolve hdl (Moment.accepted_run hr l) hq (Moment.answers_eq_zero hstep hafter) hafter

/-- so it is where an added event is handled, since its resolution is worked off before the queue is empty again -/
theorem Booked.awaits_of_resolves (h : Booked base initial m.accepted [] m.controller) (hd : m.Distinct)
    (hr : .install ticket o p ∈ m.accepted) {l r : List Move} {move : Move}
    (ha : Allowed (fun m move => move.Admissible device m) m (l ++ move :: r))
    (hzero : (m.run (l ++ move :: r)).answers ticket = 0) (hend : (m.run (l ++ move :: r)).queue = [])
    (hmove : move.Resolves (m.run l) p.topKey) : (m.run l).Awaits p.topKey := by
  cases move with
  | work =>
    obtain ⟨ws, hq⟩ := List.head?_eq_some_iff.1 hmove
    exact h.awaits_of_work hd hr ha hzero hq
  | handle s =>
    cases s with
    | event e =>
      obtain ⟨hidle, rfl⟩ := hmove
      let handled : Move := .handle (.event ⟨.added, p.topKey⟩)
      have hbegin : (m.run l).step handled = (m.run l).begin (.event ⟨.added, p.topKey⟩) := if_pos hidle
      have hrun : ∀ more, m.run (l ++ handled :: more) = ((m.run l).begin (.event ⟨.added, p.topKey⟩)).run more := by
        intro more
        rw [Moment.run_append, ← hbegin]
        rfl
      rw [hrun] at hend
      obtain ⟨l', r', rfl, hq, ht⟩ := Moment.exists_work (m := (m.run l).begin (.event ⟨.added, p.topKey⟩)) rfl hend
      have hsplit : l ++ handled :: (l' ++ .work :: r') = l ++ handled :: l' ++ .work :: r' :=
        (List.append_assoc l (handled :: l') _).symm
      change Allowed _ m (l ++ handled :: (l' ++ .work :: r')) at ha
      change (m.run (l ++ handled :: (l' ++ .work :: r'))).answers ticket = 0 at hzero
      rw [hsplit] at ha hzero
      rw [← hrun] at hq
      obtain ⟨ids, hids⟩ := h.awaits_of_work hd hr ha hzero hq
      rw [hrun, ht] at hids
      exact ⟨ids, hids⟩
    | _ => exact hmove.elim
  | switch sm => exact hmove.elim

theorem Booked.answers_le_one (h : Booked base initial m.accepted [] m.controller) (hd : m.Distinct) (ticket : Ticket) :
    m.answers ticket ≤ 1 :=
  calc
    m.answers ticket ≤ (m.controller.owing []).count ticket := (List.sublist_append_left _ _).count_le ticket
    _ = (m.accepted.map Request.ticket).count ticket := h.balance.count_eq ticket
    _ ≤ 1 := List.nodup_iff_count_le_one.1 hd ticket

/-- a new answer is the first one to its request -/
theorem Booked.unanswered (h : Booked base initial m.accepted [] m.controller) (hd : m.Distinct) {move : Move}
    (ha : move.Admissible device m) {reply : Reply} (hnew : reply ∈ (m.step move).controller.replies)
    (hold : reply ∉ m.controller.replies) : m.answers reply.ticket = 0 := by
  obtain ⟨later, hlater⟩ : m.controller.replies <+: (m.step move).controller.replies :=
    h.replies_grow hd (show Allowed (fun m move => move.Admissible device m) m [move] from ⟨ha, trivial⟩)
  have hmem : reply ∈ later := by
    rw [← hlater] at hnew
    exact (List.mem_append.1 hnew).resolve_left hold
  have hsplit : (m.step move).answers reply.ticket =
      m.answers reply.ticket + (later.map (·.ticket)).count reply.ticket := by
    rw [Moment.answers, Moment.answers, ← hlater, List.map_append, List.count_append]
  have hpos : 0 < (later.map (·.ticket)).count reply.ticket := List.count_pos_iff.2 (List.mem_map_of_mem hmem)
  have hone := (h.step move).answers_le_one (hd.step ha) reply.ticket
  omega

end Expiry

/-- **An objective expires only past elements.** When a request to install is answered with failure because its time ran
out, then each time since its registration that an added event for its top-level key was handled, or that a resolution
of this key was worked off for an event or a sweep, an element waited for the key and moved on in its place. -/
theorem expired_only_past_elements {device : DeviceId} {delay : Nat} {switch : Switch} {store : Store}
    {metrics : Metrics} {before since : List Move} {now later : Nat} {ticket : Ticket} {o : Objective} {p : Plan}
    (h : Allowed (fun m move => move.Admissible device m) (.start device delay switch store metrics)
      (before ++ .handle (.request now (.install ticket o p)) :: (since ++ [.handle (.expire later)])))
    (hidle : ((Moment.start device delay switch store metrics).run before).Idle) :
    let m := ((Moment.start device delay switch store metrics).run before).step
      (.handle (.request now (.install ticket o p)))
    ⟨ticket, .failed .installationFailed⟩ ∉ (m.run since).controller.replies →
    ⟨ticket, .failed .installationFailed⟩ ∈ ((m.run since).step (.handle (.expire later))).controller.replies →
      ∀ l move r, since = l ++ move :: r → move.Resolves (m.run l) p.topKey → (m.run l).Awaits p.topKey := by
  intro m hold hnew
  obtain ⟨hbefore, hinstall, hrest⟩ := allowed_append.1 h
  obtain ⟨hsince, hexpire, -⟩ := allowed_append.1 hrest
  have hstart : Booked [] store (Moment.start device delay switch store metrics).accepted []
      (Moment.start device delay switch store metrics).controller := booked_start device delay switch store metrics
  obtain ⟨hb, hd⟩ := hstart.run List.nodup_nil hbefore
  have hm : Booked [] store m.accepted [] m.controller := hb.step _
  have hdm : m.Distinct := hd.step hinstall
  have hr : .install ticket o p ∈ m.accepted := by
    simp only [m, Moment.step, if_pos hidle, Moment.begin]
    exact List.mem_append_right _ List.mem_cons_self
  obtain ⟨hn, hdn⟩ := hm.run hdm hsince
  have hzero : (m.run since).answers ticket = 0 := hn.unanswered hdn hexpire hnew hold
  have hquiet : (m.run since).queue = [] := by
    by_contra hbusy
    have hstay : (m.run since).step (.handle (.expire later)) = m.run since := if_neg fun hi => hbusy hi.1
    rw [hstay] at hnew
    exact hold hnew
  rintro l move r rfl hmove
  exact hm.awaits_of_resolves hdm hr hsince hzero hquiet hmove

/-! ## A false failure -/

namespace Sample

/-- nothing but the interface group that the element of the sample waits for -/
def plain : Objective := ⟨2, .simple, [⟨[.setVlanId ⟨10⟩, .output ⟨7⟩]⟩], ⟨"sample"⟩, none⟩

def plainPlan : Plan := ⟨2, [inner ⟨10⟩], [], ⟨2, [[(inner ⟨10⟩).key]]⟩, (inner ⟨10⟩).key, (inner ⟨10⟩).id⟩

/-- it is registered after the sample -/
def follower : Move := .handle (.request 0 (.install 1 plain plainPlan))

/-- the interface group is confirmed and reported added, and the element of the sample moves on -/
def overtaken : List Move := .work :: confirmed (inner ⟨10⟩).key ++ [.work, .work]

theorem admissible_overtaken : Allowed (fun m move => move.Admissible device m) start
    (asked ++ follower :: (overtaken ++ [.handle (.expire 1000)])) := by
  have hplain : (Request.install 1 plain plainPlan).Planned device := ⟨0, rfl⟩
  have hrest : ∀ move ∈ overtaken ++ [.handle (.expire 1000)], move.request? = none := by decide +kernel
  exact ⟨⟨planned_request, List.not_mem_nil⟩, trivial, ⟨hplain, by decide +kernel⟩, allowed_admissible hrest _⟩

end Sample

/-- when the interface group is reported added, the element of the sample waits for it -/
theorem element_overtakes_plain :
    let m := (Sample.start.run Sample.asked).step Sample.follower
    ⟨1, .failed .installationFailed⟩ ∉ (m.run Sample.overtaken).controller.replies ∧
      ⟨1, .failed .installationFailed⟩ ∈ ((m.run Sample.overtaken).step (.handle (.expire 1000))).controller.replies ∧
      (m.run [.work, .switch (.confirm Sample.plainPlan.topKey)]).Awaits Sample.plainPlan.topKey := by
  have hold : ⟨1, .failed .installationFailed⟩ ∉
      (((Sample.start.run Sample.asked).step Sample.follower).run Sample.overtaken).controller.replies := by
    decide +kernel
  have hnew : ⟨1, .failed .installationFailed⟩ ∈
      ((((Sample.start.run Sample.asked).step Sample.follower).run Sample.overtaken).step
        (.handle (.expire 1000))).controller.replies := by
    decide +kernel
  have hidle : (Sample.start.run Sample.asked).Idle := by decide +kernel
  have hresolves : (Move.handle (.event ⟨.added, Sample.plainPlan.topKey⟩)).Resolves
      (((Sample.start.run Sample.asked).step Sample.follower).run
        [.work, .switch (.confirm Sample.plainPlan.topKey)]) Sample.plainPlan.topKey := by
    decide +kernel
  have h := Sample.admissible_overtaken
  unfold Sample.start at hidle
  unfold Sample.start Sample.follower at h hold hnew hresolves ⊢
  exact ⟨hold, hnew, expired_only_past_elements h hidle hold hnew _ _ [.work, .work] rfl hresolves⟩

/-- **A failure though the group was confirmed.** The group of an objective is confirmed and reported added while it
waits, and the objective is told later that its group could not be installed in time. -/
theorem expired_though_confirmed :
    let m := (Sample.start.run Sample.asked).step Sample.follower
    let n := m.run Sample.overtaken
    (Allowed (fun m move => move.Admissible Sample.device m) Sample.start
        (Sample.asked ++ Sample.follower :: (Sample.overtaken ++ [.handle (.expire 1000)]))) ∧
      (∃ l move r, Sample.overtaken = l ++ move :: r ∧ move.Resolves (m.run l) Sample.plainPlan.topKey) ∧
      n.controller.Stands Sample.plainPlan.topKey ∧
      ⟨1, .failed .installationFailed⟩ ∉ n.controller.replies ∧
      ⟨1, .failed .installationFailed⟩ ∈ (n.step (.handle (.expire 1000))).controller.replies := by
  intro m n
  have hreported : ∃ l move r, Sample.overtaken = l ++ move :: r ∧ move.Resolves (m.run l) Sample.plainPlan.topKey :=
    ⟨[.work, .switch (.confirm Sample.plainPlan.topKey)], .handle (.event ⟨.added, Sample.plainPlan.topKey⟩),
      [.work, .work], rfl, by decide +kernel⟩
  exact ⟨Sample.admissible_overtaken, hreported, by decide +kernel, by decide +kernel, by decide +kernel⟩

end FlowGroups
