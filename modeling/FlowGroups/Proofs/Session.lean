/-
What a session does to its controller is a run. Requests, deliveries, sweeps and expiries are handlers, each of them its
opening and some items of work, and everything else happens on the switch's side. A request that cannot be planned is
answered in front of the controller, which never hears of it, and a restart begins another run.

- `Service.Kept`: what is kept by everything that a session does to its service.
- `session_is_run`: the controller of a session is where an allowed run leads to, but for such answers.
- `uninterrupted_session_is_run`: without a restart, this run begins where the session does.
- `daemon_is_run`: what a run of the daemon leaves is where such a run leads to.
-/
import FlowGroups.Daemon
import FlowGroups.Proofs.Echoes

namespace FlowGroups

/-- an event that is delivered is one taken off the queue of the switch, and then handled -/
theorem Controller.deliver_eq (c : Controller) (e : Event) (rest : List Event) :
    let d : Controller := { c with switch := c.switch.move (.scramble rest) }
    c.deliver e rest = if c.isStopped then d else d.respond (.event e) := rfl

/-! ## Requests of a service -/

namespace Planner

theorem device_planHashed (p : Planner) (o : Objective) (ts : List Treatment) (addBucket : Bool) :
    (p.planHashed o ts addBucket).2.device = p.device := by
  unfold planHashed
  split <;> rfl

theorem device_build (p : Planner) (o : Objective) : (p.build o).2.device = p.device := by
  unfold build
  split
  · rfl
  · rfl
  · split_ifs
    · rfl
    · exact p.device_planHashed o _ _
  · rfl

theorem device_buildAddBucket (p : Planner) (o : Objective) : (p.buildAddBucket o).2.device = p.device := by
  unfold buildAddBucket
  split_ifs
  · split
    · rfl
    · exact p.device_planHashed o _ _
  · rfl

end Planner

namespace Service

theorem device_plan (s : Service) (op : Operation) (o : Objective) : (s.plan op o).2.device = s.planner.device := by
  cases op with
  | add => exact s.planner.device_build o
  | addBucket => exact s.planner.device_buildAddBucket o
  | removeBucket | remove => rfl

/-- a request that the service makes is one of its planner, with the next ticket -/
theorem planned_of_plan {s : Service} {op : Operation} {o : Objective} {r : Request} (h : (s.plan op o).1 = .ok r) :
    r.Planned s.planner.device ∧ r.ticket = s.nextTicket := by
  cases op with
  | add =>
    simp only [plan] at h
    cases hp : (s.planner.build o).1 with
    | error e => rw [hp] at h; cases h
    | ok p => rw [hp] at h; cases h; exact ⟨⟨s.planner.vpnIndex, hp⟩, rfl⟩
  | addBucket =>
    simp only [plan] at h
    cases hp : (s.planner.buildAddBucket o).1 with
    | error e => rw [hp] at h; cases h
    | ok p => rw [hp] at h; cases h; exact ⟨⟨s.planner.vpnIndex, hp⟩, rfl⟩
  | removeBucket =>
    simp only [plan] at h
    cases hp : o.removalPort with
    | error e => rw [hp] at h; cases h
    | ok port => rw [hp] at h; cases h; exact ⟨hp, rfl⟩
  | remove =>
    cases h
    exact ⟨trivial, rfl⟩

/-- the service of a device is at a moment between handlers, and its next ticket is a new one -/
structure Follows (device : DeviceId) (m : Moment) (s : Service) : Prop where
  home : s.planner.device = device
  done : m.queue = []
  tickets : ∀ r ∈ m.accepted, r.ticket < s.nextTicket
  echoes : ∃ refused, Controller.Echoes refused id s.controller m.controller

/-- an allowed run leads from a moment to where the service is -/
def Tracks (device : DeviceId) (m : Moment) (s : Service) : Prop :=
  ∃ moves, Allowed (fun m move => move.Admissible device m) m moves ∧ s.Follows device (m.run moves)

variable {device : DeviceId} {m : Moment} {s s' : Service}

theorem Tracks.trans (h : s.Tracks device m) (hnext : ∀ n, s.Follows device n → s'.Tracks device n) :
    s'.Tracks device m := by
  obtain ⟨moves, ha, hs⟩ := h
  obtain ⟨more, hmore, hs'⟩ := hnext _ hs
  rw [← Moment.run_append] at hs'
  exact ⟨moves ++ more, allowed_append.2 ⟨ha, hmore⟩, hs'⟩

namespace Follows

theorem idle (h : s.Follows device m) (hlive : s.controller.isStopped = false) : m.Idle := by
  obtain ⟨refused, hechoes⟩ := h.echoes
  exact ⟨h.done, hechoes.isStopped ▸ hlive⟩

/-- **A handler is its opening and some items of work.** -/
theorem respond (h : s.Follows device m) (hlive : s.controller.isStopped = false) (stimulus : Stimulus) {next : Ticket}
    {planner : Planner} (hhome : planner.device = device) (hnext : s.nextTicket ≤ next)
    (hr : ∀ r, stimulus.request? = some r → r.Planned device ∧ r.ticket = s.nextTicket ∧ s.nextTicket < next) :
    (Service.mk planner (s.controller.respond stimulus) next).Tracks device m := by
  obtain ⟨n, hcontroller, hqueue, haccepted⟩ := Moment.run_handle (h.idle hlive) stimulus
  refine ⟨.handle stimulus :: List.replicate n .work, ⟨?_, allowed_admissible ?_ _⟩, hhome, hqueue, ?_, ?_⟩
  · cases stimulus with
    | request now r =>
      obtain ⟨hplanned, hticket, -⟩ := hr r rfl
      refine ⟨hplanned, fun hmem => ?_⟩
      obtain ⟨q, hq, hsame⟩ := List.mem_map.1 hmem
      exact (h.tickets q hq).ne (hsame.trans hticket)
    | event | sweep | expire => trivial
  · intro move hmove
    rw [List.eq_of_mem_replicate hmove]
    rfl
  · intro r hmem
    rw [haccepted] at hmem
    rcases List.mem_append.1 hmem with hmem | hmem
    · exact (h.tickets r hmem).trans_le hnext
    · obtain ⟨-, hticket, hless⟩ := hr r (Option.mem_toList.1 hmem)
      exact hticket ▸ hless
  · obtain ⟨refused, hechoes⟩ := h.echoes
    rw [hcontroller]
    exact ⟨refused, hechoes.respond stimulus⟩

/-- a request is refused in front of the controller, or comes to a controller that has ended, or is handled -/
theorem request (h : s.Follows device m) (now : Nat) (op : Operation) (o : Objective) :
    (s.request now op o).1.Tracks device m := by
  have hhome := (s.device_plan op o).trans h.home
  have hplanned : ∀ r, (s.plan op o).1 = .ok r → r.Planned s.planner.device ∧ r.ticket = s.nextTicket :=
    fun _ => planned_of_plan
  unfold Service.request
  generalize s.plan op o = planned at hhome hplanned
  obtain ⟨_ | r, planner⟩ := planned
  · obtain ⟨refused, hechoes⟩ := h.echoes
    exact ⟨[], trivial, hhome, h.done, fun r hr => (h.tickets r hr).trans (Nat.lt_succ_self _), refused + 1,
      hechoes.refuse _ _⟩
  · obtain ⟨hr, hticket⟩ := hplanned r rfl
    rw [h.home] at hr
    simp only
    split_ifs with hstopped
    · exact ⟨[], trivial, hhome, h.done, h.tickets, h.echoes⟩
    · refine h.respond (Bool.eq_false_of_not_eq_true hstopped) (.request now r) hhome (Nat.le_succ _) fun q hq => ?_
      cases hq
      exact ⟨hr, hticket, Nat.lt_succ_self _⟩

theorem switch (h : s.Follows device m) (sm : SwitchMove) :
    { s with controller := { s.controller with switch := s.controller.switch.move sm } }.Tracks device m := by
  obtain ⟨refused, hechoes⟩ := h.echoes
  exact ⟨[.switch sm], ⟨trivial, trivial⟩, h.home, h.done, h.tickets, refused, hechoes.switch sm⟩

end Follows

/-! ## What a service keeps -/

/-- this is kept by everything that a session does to its service, a restart apart -/
structure Kept (P : Service → Prop) : Prop where
  request : ∀ s now op o, P s → P (s.request now op o).1
  respond : ∀ s stimulus, stimulus.request? = none → s.controller.isStopped = false → P s →
    P { s with controller := s.controller.respond stimulus }
  switch : ∀ s m, P s → P { s with controller := { s.controller with switch := s.controller.switch.move m } }

/-- what a restart leaves: the groups of the switch, the store and the metrics, and no event under way -/
def restarted (device : DeviceId) (delay : Nat) (s : Service) : Service :=
  .start device delay { s.controller.switch with events := [] } s.controller.store s.controller.metrics s.nextTicket

namespace Kept

variable {P : Service → Prop}

theorem deliver (hP : Kept P) (h : P s) (e : Event) (rest : List Event) :
    P { s with controller := s.controller.deliver e rest } := by
  have hmoved := hP.switch s (.scramble rest) h
  rw [Controller.deliver_eq]
  split_ifs with hs
  · exact hmoved
  · exact hP.respond { s with controller := { s.controller with switch := s.controller.switch.move (.scramble rest) } }
      (.event e) rfl (Bool.eq_false_of_not_eq_true hs) hmoved

theorem deliverUntil (hP : Kept P) (done : Controller → Bool) (h : P s) :
    P { s with controller := s.controller.deliverUntil done } := by
  obtain ⟨planner, c, next⟩ := s
  fun_induction Controller.deliverUntil done c with
  | case1 c => exact h
  | case2 c => exact h
  | case3 c _ e rest _ _ ih => exact ih (hP.deliver h e rest)

theorem play (hP : Kept P) (now : Nat) (lines : List Replay.Line) (h : P s) (index : Nat)
    (log : List LogLine) : P (Playback.play s now index log lines).1 := by
  induction lines generalizing s index log with
  | nil => exact h
  | cons line rest ih =>
    cases line with
    | error e => exact ih h _ _
    | ok entry =>
      have hnext := hP.request s now entry.op entry.objective h
      simp only [Playback.play]
      generalize s.request now entry.op entry.objective = x at hnext
      obtain ⟨s', _ | ticket⟩ := x
      · exact hnext
      · simp only
        split
        · exact ih hnext _ _
        · exact hnext

theorem resume (hP : Kept P) (p : Playback) (now : Nat) (h : P s) : P (p.resume s now).1 := by
  unfold Playback.resume
  split
  · exact h
  · split
    · exact hP.play now _ h _ _
    · split
      · exact hP.play now _ h _ _
      · split <;> exact h

theorem resumeAll (hP : Kept P) (now : Nat) (ps : List Playback) (h : P s) :
    P (Session.resumeAll now s ps).1 := by
  induction ps with
  | nil => exact h
  | cons p ps ih => exact hP.resume p now ih

end Kept
end Service

/-! ## Sessions -/

namespace Session

/-- what can be done to a session -/
inductive Command
  | request (op : Operation) (o : Objective) (isForgotten : Bool)
  | confirm (ks : List Key)
  | installSilently (ks : List Key)
  | reject (ks : List Key)
  | emit (e : Event)
  | drive (rounds : Nat)
  | hold
  | release (count : Option Nat)
  | lose
  | advance (units : Nat)
  | restart
  | playBack (text : Octets)
  | report

def obey (s : Session) : Command → Session
  | .request op o isForgotten => (s.request op o isForgotten).1
  | .confirm ks => (s.manage Switch.confirm ks).1
  | .installSilently ks => (s.manage Switch.installSilently ks).1
  | .reject ks => (s.manage Switch.reject ks).1
  | .emit e => s.emit e
  | .drive rounds => (s.drive rounds).1
  | .hold => s.hold
  | .release count => s.release count
  | .lose => s.lose
  | .advance units => s.advance units
  | .restart => s.restart
  | .playBack text => (s.playBack text).1
  | .report => s.reported

/-- a session on a device whose service is as `P` says -/
structure Serves (device : DeviceId) (delay : Nat) (P : Service → Prop) (s : Session) : Prop where
  device : s.device = device
  delay : s.delay = delay
  service : P s.service

namespace Serves

variable {device : DeviceId} {delay : Nat} {P : Service → Prop} {s : Session}

theorem resume (hP : Service.Kept P) (h : s.Serves device delay P) : s.resume.Serves device delay P :=
  ⟨h.device, h.delay, hP.resumeAll s.now s.playbacks h.service⟩

theorem deliver (hP : Service.Kept P) (h : s.Serves device delay P) : s.deliver.Serves device delay P := by
  unfold Session.deliver
  split_ifs
  · exact h
  · exact ⟨h.device, h.delay, hP.deliverUntil _ h.service⟩

theorem settle (hP : Service.Kept P) (h : s.Serves device delay P) : s.settle.Serves device delay P := by
  have hturns : ∀ n s, Serves device delay P s → (turns n s).Serves device delay P := by
    intro n
    induction n with
    | zero => exact fun s h => h
    | succ n ih =>
      intro s h
      rw [turns]
      split_ifs
      · exact ih _ ((h.resume hP).deliver hP)
      · exact (h.resume hP).deliver hP
  exact hturns _ s h

theorem switched (hP : Service.Kept P) (h : s.Serves device delay P) (m : SwitchMove) :
    (s.withSwitch (s.switch.move m)).Serves device delay P :=
  ⟨h.device, h.delay, hP.switch s.service m h.service⟩

theorem request (hP : Service.Kept P) (h : s.Serves device delay P) (op : Operation) (o : Objective)
    (isForgotten : Bool) : (s.request op o isForgotten).1.Serves device delay P := by
  have hnext := hP.request s.service s.now op o h.service
  unfold Session.request
  generalize s.service.request s.now op o = x at hnext
  obtain ⟨service, _ | ticket⟩ := x
  · exact settle hP ⟨h.device, h.delay, hnext⟩
  · exact settle hP ⟨h.device, h.delay, hnext⟩

/-- what is done about some keys is one move after the other -/
theorem manage (hP : Service.Kept P) (h : s.Serves device delay P) {f : Switch → Key → Switch × Bool}
    (hf : ∀ switch k, ∃ m, (f switch k).1 = switch.move m) (ks : List Key) :
    (s.manage f ks).1.Serves device delay P := by
  have hall : ∀ (ks : List Key) s, Serves device delay P s →
      (s.withSwitch (atSwitch f s.switch ks).1).Serves device delay P := by
    intro ks
    induction ks with
    | nil => exact fun s h => h
    | cons k ks ih =>
      intro s h
      obtain ⟨m, hm⟩ := hf s.switch k
      have hrest := ih _ (h.switched hP m)
      rw [← hm] at hrest
      exact hrest
  exact settle hP (hall ks s h)

theorem drive (hP : Service.Kept P) (h : s.Serves device delay P) (rounds : Nat) :
    (s.drive rounds).1.Serves device delay P := by
  induction rounds generalizing s with
  | zero => exact h
  | succ rounds ih =>
    unfold Session.drive
    split
    · exact h
    · exact ih (h.manage hP (fun switch k => ⟨.confirm k, rfl⟩) _)

theorem iterate {f : Session → Session} (hf : ∀ s, Serves device delay P s → (f s).Serves device delay P)
    (h : s.Serves device delay P) (n : Nat) : (Nat.repeat f n s).Serves device delay P := by
  induction n with
  | zero => exact h
  | succ n ih => exact hf _ ih

theorem releaseOne (hP : Service.Kept P) (h : s.Serves device delay P) :
    s.releaseOne.Serves device delay P := by
  unfold Session.releaseOne
  split
  · exact h
  · exact settle hP ⟨h.device, h.delay, hP.deliver h.service _ _⟩

theorem release (hP : Service.Kept P) (h : s.Serves device delay P) (count : Option Nat) :
    (s.release count).Serves device delay P := by
  have hheld : ∀ isHolding, Serves device delay P { s with isHolding } := fun _ => ⟨h.device, h.delay, h.service⟩
  cases count with
  | none => exact (hheld false).settle hP
  | some count => exact ((hheld true).iterate (fun _ h => h.releaseOne hP) count).settle hP

/-- the controller does something of its own accord -/
theorem stir (hP : Service.Kept P) (h : s.Serves device delay P) {f : Controller → Controller}
    (hf : f s.controller = s.controller ∨ ∃ stimulus, stimulus.request? = none ∧
      f s.controller = s.controller.respond stimulus) : (s.stir f).Serves device delay P := by
  unfold Session.stir
  split_ifs with hstopped
  · exact h
  · refine ⟨h.device, h.delay, ?_⟩
    rcases hf with he | ⟨stimulus, hsilent, he⟩
    · simp only [withController, he]
      exact h.service
    · simp only [withController, he]
      exact hP.respond s.service stimulus hsilent (Bool.eq_false_of_not_eq_true hstopped) h.service

theorem tick (hP : Service.Kept P) (h : s.Serves device delay P) : s.tick.Serves device delay P := by
  have hlater : Serves device delay P { s with now := s.now + 1 } := ⟨h.device, h.delay, h.service⟩
  have hexpired : ∀ {s}, Serves device delay P s → (s.stir (·.expireIfDue s.now)).Serves device delay P := by
    intro s h
    refine h.stir hP ?_
    unfold Controller.expireIfDue
    split
    · split_ifs
      · exact Or.inr ⟨.expire s.now, rfl, rfl⟩
      · exact Or.inl rfl
    · exact Or.inl rfl
  unfold Session.tick
  refine settle hP (hexpired ?_)
  split_ifs
  · exact settle hP (hlater.stir hP (Or.inr ⟨.sweep, rfl, rfl⟩))
  · exact hlater

theorem restart (hrestart : ∀ s, P s → P (s.restarted device delay)) (h : s.Serves device delay P) :
    s.restart.Serves device delay P := by
  have hnew := hrestart s.service h.service
  rw [← h.device, ← h.delay] at hnew
  exact ⟨h.device, h.delay, hnew⟩

theorem playBack (hP : Service.Kept P) (h : s.Serves device delay P) (text : Octets) :
    (s.playBack text).1.Serves device delay P := by
  unfold Session.playBack
  split
  · exact h
  · exact settle hP ⟨h.device, h.delay, h.service⟩

/-- **Whatever is done to a session** is done to its service. -/
theorem obey (hP : Service.Kept P) {command : Command}
    (hrestart : command = .restart → ∀ s, P s → P (s.restarted device delay)) (h : s.Serves device delay P) :
    (s.obey command).Serves device delay P := by
  cases command with
  | request op o isForgotten => exact h.request hP op o isForgotten
  | confirm ks => exact h.manage hP (fun switch k => ⟨.confirm k, rfl⟩) ks
  | installSilently ks => exact h.manage hP (fun switch k => ⟨.installSilently k, rfl⟩) ks
  | reject ks => exact h.manage hP (fun switch k => ⟨.reject k, rfl⟩) ks
  | emit e => exact (h.switched hP (.scramble (s.switch.events ++ [e]))).settle hP
  | drive rounds => exact h.drive hP rounds
  | hold => exact settle hP ⟨h.device, h.delay, h.service⟩
  | release count => exact h.release hP count
  | lose => exact (h.switched hP (.scramble [])).settle hP
  | advance units => exact h.iterate (fun _ h => h.tick hP) units
  | restart => exact h.restart (hrestart rfl)
  | playBack text => exact h.playBack hP text
  | report => exact ⟨h.device, h.delay, h.service⟩

theorem obeyAll (hP : Service.Kept P) {commands : List Command}
    (hrestart : .restart ∈ commands → ∀ s, P s → P (s.restarted device delay)) (h : s.Serves device delay P) :
    (commands.foldl Session.obey s).Serves device delay P := by
  induction commands generalizing s with
  | nil => exact h
  | cons command commands ih =>
    have hfirst := h.obey hP fun he : command = .restart => hrestart (he ▸ List.mem_cons_self)
    exact ih (fun hmem => hrestart (List.mem_cons_of_mem _ hmem)) hfirst

end Serves
end Session

/-! ## Sessions are runs -/

namespace Service

theorem tracks_start (device : DeviceId) (delay : Nat) (switch : Switch) (store : Store) (metrics : Metrics)
    (nextTicket : Ticket) :
    (Service.start device delay switch store metrics nextTicket).Tracks device
      (.start device delay switch store metrics) :=
  ⟨[], trivial, rfl, rfl, fun _ hr => absurd hr List.not_mem_nil, 0, .refl _⟩

theorem kept_tracks (device : DeviceId) (m : Moment) : Kept fun s => s.Tracks device m := by
  refine ⟨?_, ?_, ?_⟩
  · intro s now op o h
    exact h.trans fun _ hs => hs.request now op o
  · intro s stimulus hsilent hlive h
    refine h.trans fun _ hs => hs.respond hlive stimulus hs.home le_rfl fun r hr => ?_
    rw [hsilent] at hr
    cases hr
  · intro s m h
    exact h.trans fun _ hs => hs.switch m

/-- A controller begins at the first of these moments, and at every other one it begins anew, with what a restart leaves
where a run from such a moment has led. -/
inductive Begins (device : DeviceId) (delay : Nat) (first : Moment) : Moment → Prop
  | first : Begins device delay first first
  | restart {m : Moment} {s : Service} (h : Begins device delay first m) (hs : s.Tracks device m) :
    Begins device delay first
      (.start device delay { s.controller.switch with events := [] } s.controller.store s.controller.metrics)

/-- a run leads to where the service is, from the first moment or from a restart -/
def Runs (device : DeviceId) (delay : Nat) (first : Moment) (s : Service) : Prop :=
  ∃ m, Begins device delay first m ∧ s.Tracks device m

theorem kept_runs (device : DeviceId) (delay : Nat) (first : Moment) : Kept (Runs device delay first) := by
  refine ⟨?_, ?_, ?_⟩
  · intro s now op o h
    obtain ⟨m, hm, hs⟩ := h
    exact ⟨m, hm, (kept_tracks device m).request s now op o hs⟩
  · intro s stimulus hsilent hlive h
    obtain ⟨m, hm, hs⟩ := h
    exact ⟨m, hm, (kept_tracks device m).respond s stimulus hsilent hlive hs⟩
  · intro s move h
    obtain ⟨m, hm, hs⟩ := h
    exact ⟨m, hm, (kept_tracks device m).switch s move hs⟩

theorem Runs.restarted {device : DeviceId} {delay : Nat} {first : Moment} {s : Service}
    (h : s.Runs device delay first) : (s.restarted device delay).Runs device delay first := by
  obtain ⟨m, hm, hs⟩ := h
  exact ⟨_, hm.restart hs, tracks_start device delay _ _ _ _⟩

end Service

theorem Session.serves_start {device : DeviceId} {delay sweepEvery : Nat} {isAutomatic : Bool} {store : Store}
    {P : Service → Prop} (h : P (.start device delay (.fresh isAutomatic) store .zero 0)) :
    ((Session.start device delay sweepEvery isAutomatic).withStore store).Serves device delay P :=
  ⟨rfl, rfl, h⟩

/-- **A session is a run.** Whatever is done to a session over any store, an allowed run leads to where its controller
is, from the start of the session or from its last restart: the requests that the run accepted have tickets that were
given out, and its switch, store, tracker and everything else are those of the session, but for the answers to requests
that could not be planned and the failures that these count as. -/
theorem session_is_run (device : DeviceId) (delay sweepEvery : Nat) (isAutomatic : Bool) (store : Store)
    (commands : List Session.Command) :
    let s := commands.foldl Session.obey ((Session.start device delay sweepEvery isAutomatic).withStore store)
    ∃ start moves,
      Service.Begins device delay (.start device delay (.fresh isAutomatic) store .zero) start ∧
        Allowed (fun m move => move.Admissible device m) start moves ∧
        let m := start.run moves
        m.queue = [] ∧ (∀ r ∈ m.accepted, r.ticket < s.service.nextTicket) ∧
          ∃ refused, Controller.Echoes refused id s.controller m.controller := by
  let first := Moment.start device delay (.fresh isAutomatic) store .zero
  have hstart : ((Session.start device delay sweepEvery isAutomatic).withStore store).Serves device delay
      (Service.Runs device delay first) :=
    Session.serves_start ⟨first, .first, Service.tracks_start device delay _ _ _ _⟩
  have hend := hstart.obeyAll (Service.kept_runs device delay first)
    fun (_ : .restart ∈ commands) _ h => h.restarted
  obtain ⟨m, hm, moves, hallowed, hs⟩ := hend.service
  exact ⟨m, moves, hm, hallowed, hs.done, hs.tickets, hs.echoes⟩

/-- without a restart it is one run from the start of the session -/
theorem uninterrupted_session_is_run (device : DeviceId) (delay sweepEvery : Nat) (isAutomatic : Bool) (store : Store)
    {commands : List Session.Command} (h : .restart ∉ commands) :
    let s := commands.foldl Session.obey ((Session.start device delay sweepEvery isAutomatic).withStore store)
    ∃ moves,
      Allowed (fun m move => move.Admissible device m) (.start device delay (.fresh isAutomatic) store .zero) moves ∧
        let m := (Moment.start device delay (.fresh isAutomatic) store .zero).run moves
        m.queue = [] ∧ (∀ r ∈ m.accepted, r.ticket < s.service.nextTicket) ∧
          ∃ refused, Controller.Echoes refused id s.controller m.controller := by
  let first := Moment.start device delay (.fresh isAutomatic) store .zero
  have hstart : ((Session.start device delay sweepEvery isAutomatic).withStore store).Serves device delay
      fun s => s.Tracks device first :=
    Session.serves_start (Service.tracks_start device delay _ _ _ _)
  have hend := hstart.obeyAll (Service.kept_tracks device first) fun hmem => absurd hmem h
  obtain ⟨moves, hallowed, hs⟩ := hend.service
  exact ⟨moves, hallowed, hs.done, hs.tickets, hs.echoes⟩

theorem Daemon.serves_play {device : DeviceId} {delay : Nat} {P : Service → Prop} (hP : Service.Kept P) {s t : Session}
    (h : s.Serves device delay P) {file : StartFile} (ht : Daemon.play s file = .ok t) : t.Serves device delay P := by
  cases file with
  | none =>
    cases ht
    exact h
  | missing => cases ht
  | text octets =>
    have hplayed := h.playBack hP octets
    simp only [Daemon.play] at ht
    generalize s.playBack octets = x at hplayed ht
    obtain ⟨u, _ | _⟩ := x
    · cases ht
    · cases ht
      exact hplayed

/-- **A run of the daemon is a run.** It begins with the store that the daemon is given, on a switch that confirms
everything at once, and leads to the store that the daemon leaves and to its metrics, but for the failures that requests
which could not be planned count as. -/
theorem daemon_is_run {device : DeviceId} {store : Store} {isStorageUsable : Bool} {file : StartFile} {r : Daemon.Run}
    (h : Daemon.run device store isStorageUsable file = .ok r) :
    let first := Moment.start device Settings.defaultExpiryMillis (.fresh true) store .zero
    ∃ moves, Allowed (fun m move => move.Admissible device m) first moves ∧
      let m := first.run moves
      m.queue = [] ∧ r.store = m.controller.store ∧
        ∃ refused, r.metrics = { m.controller.metrics with failed := refused + m.controller.metrics.failed } := by
  intro first
  have hstart : (Daemon.session device store).Serves device Settings.defaultExpiryMillis
      fun s => s.Tracks device first :=
    Session.serves_start (Service.tracks_start device _ _ _ _ _)
  unfold Daemon.run at h
  cases isStorageUsable with
  | false => cases h
  | true =>
    simp only [Bool.not_true, Bool.false_eq_true, if_false] at h
    split at h
    · cases h
    · cases hs : Daemon.play (Daemon.session device store) file with
      | error e =>
        rw [hs] at h
        cases h
      | ok s =>
        rw [hs] at h
        cases h
        obtain ⟨moves, hallowed, hfollows⟩ :=
          (Daemon.serves_play (Service.kept_tracks device first) hstart hs).service
        obtain ⟨refused, hechoes⟩ := hfollows.echoes
        exact ⟨moves, hallowed, hfollows.done, hechoes.store, refused, hechoes.metrics⟩

end FlowGroups
