/-
Runs of a controller. A handler begins with what its stimulus changes at once and leaves a queue, which is then worked
off item by item, so that every moment inside a handler can be looked at too. The switch moves whenever it likes. A
moment also remembers which requests were accepted and which elements were registered and taken from the queue.

- `Controller.Opens`: the ways a handler begins; what its opening keeps is proved by cases on them.
- `run_handle`: the opening of a handler and enough items of work are the handler.
- `Allowed`, `Allowed.keeps`: runs in which every move is of some kind, and what holds all along them.
-/
import FlowGroups.Proofs.Plan
import FlowGroups.Proofs.Controller

namespace FlowGroups

/-! ## Requests -/

namespace Request

def ticket : Request → Ticket
  | .install ticket _ _ => ticket
  | .addBucket a => a.ticket
  | .removeBucket ticket _ _ => ticket
  | .remove ticket _ => ticket

def plan? : Request → Option Plan
  | .install _ _ p => some p
  | .addBucket a => some a.plan
  | .removeBucket .. => none
  | .remove .. => none

/-- does a planner of the device make this request? -/
def Planned (device : DeviceId) : Request → Prop
  | .install _ o p => ∃ index, ((Planner.mk device index).build o).1 = .ok p
  | .addBucket a => ∃ index, ((Planner.mk device index).buildAddBucket a.objective).1 = .ok a.plan
  | .removeBucket _ o port => o.removalPort = .ok port
  | .remove .. => True

/-- the objective that a request is about -/
def objective : Request → Objective
  | .install _ o _ => o
  | .addBucket a => a.objective
  | .removeBucket _ o _ => o
  | .remove _ o => o

/-- the plan of a request is put together from the chains of the buckets of its objective -/
theorem Planned.composes {device : DeviceId} {r : Request} (h : r.Planned device) {p : Plan} (hp : r.plan? = some p) :
    ∃ adds cs crown, p.Composes r.objective device adds cs crown := by
  cases r with
  | install ticket o q =>
    obtain ⟨index, hq⟩ := h
    cases hp
    obtain ⟨cs, crown, -, hcomposes⟩ := Planner.composes_of_build hq
    exact ⟨false, cs, crown, hcomposes⟩
  | addBucket a =>
    obtain ⟨index, hq⟩ := h
    cases hp
    obtain ⟨-, cs, crown, -, hcomposes⟩ := Planner.composes_of_buildAddBucket hq
    exact ⟨true, cs, crown, hcomposes⟩
  | removeBucket => cases hp
  | remove => cases hp

theorem Planned.wellFormed {device : DeviceId} {r : Request} (h : r.Planned device) {p : Plan}
    (hp : r.plan? = some p) : p.WellFormed device := by
  obtain ⟨adds, cs, crown, hcomposes⟩ := h.composes hp
  exact hcomposes.wellFormed

theorem Planned.rooted {device : DeviceId} {ticket : Ticket} {o : Objective} {p : Plan}
    (h : (Request.install ticket o p).Planned device) : p.Rooted := by
  obtain ⟨index, hp⟩ := h
  exact (Planner.sound_of_build hp).2

end Request

/-! ## Handlers -/

/-- what a controller reacts to -/
inductive Stimulus
  | request (now : Nat) (r : Request)
  | event (e : Event)
  | sweep
  | expire (now : Nat)
deriving DecidableEq, Repr

namespace Controller

def respond (c : Controller) : Stimulus → Controller
  | .request now r => c.handle now r
  | .event e => c.observe e
  | .sweep => c.sweep
  | .expire now => c.expire now

/-- what a stimulus changes at once, and the work it leaves -/
def opening (c : Controller) : Stimulus → Controller × List Work
  | .request now (.install ticket o p) =>
    let tracker := c.tracker.registerObjective p.topKey ⟨ticket, o, p.record, p.topId⟩ now
    let (c, work) := { c with tracker }.registerElements p.topKey p.elements
    (c, work ++ p.initial.map .create)
  | .request now (.addBucket a) =>
    match c.store.get a.objective.id with
    | .ok (some existing) => c.extend existing a
    | _ => (c.handle now (.addBucket a), [])
  | .request now r => (c.handle now r, [])
  | .event ⟨.added, k⟩ => (c, [.resolve k])
  | .event e => (c.observe e, [])
  | .sweep => (c, (c.tracker.pendingKeys.filter fun k => (c.group? k).isSome).map .resolve)
  | .expire now => (c.expire now, [])

theorem opening_install (c : Controller) (now : Nat) (ticket : Ticket) (o : Objective) (p : Plan) :
    let t := c.tracker.registerObjective p.topKey ⟨ticket, o, p.record, p.topId⟩ now
    c.opening (.request now (.install ticket o p)) =
      ({ c with tracker := (t.registerAll p.topKey p.elements).1 },
        (t.registerAll p.topKey p.elements).2.map .element ++ p.initial.map .create) := by
  simp only [opening, registerElements_eq]

theorem opening_addBucket {c : Controller} {a : Addition}
    (h : ∀ existing, c.store.get a.objective.id ≠ .ok (some existing)) (now : Nat) :
    c.opening (.request now (.addBucket a)) = (c.addBucket a, []) := by
  cases hs : c.store.get a.objective.id with
  | error e => simp only [opening, hs, handle]
  | ok stored =>
    cases stored with
    | none => simp only [opening, hs, handle]
    | some existing => exact absurd hs (h existing)

/-- the ways a handler begins, with what it changes at once and the work it leaves -/
inductive Opens (c : Controller) : Stimulus → Controller × List Work → Prop
  | install (now : Nat) (ticket : Ticket) (o : Objective) (p : Plan) {t : Tracker}
    (ht : t = c.tracker.registerObjective p.topKey ⟨ticket, o, p.record, p.topId⟩ now) :
    Opens c (.request now (.install ticket o p))
      ({ c with tracker := (t.registerAll p.topKey p.elements).1 },
        (t.registerAll p.topKey p.elements).2.map .element ++ p.initial.map .create)
  | extend (now : Nat) {a : Addition} {existing : Record} (hs : c.store.get a.objective.id = .ok (some existing)) :
    Opens c (.request now (.addBucket a))
      ({ c with
          store := c.store.put (existing.append a.plan.record)
          tracker := (c.tracker.registerAll a.plan.topKey a.plan.elements).1
          replies := c.replies ++ [⟨a.ticket, .installed a.plan.topId⟩] },
        (c.tracker.registerAll a.plan.topKey a.plan.elements).2.map .element ++ a.plan.initial.map .create)
  | defer (now : Nat) {a : Addition} (hs : ∀ existing, c.store.get a.objective.id ≠ .ok (some existing))
    (ho : c.tracker.hasObjective a.objective.id = true) (hn : c.deferred.get? a.objective.id = none) :
    Opens c (.request now (.addBucket a)) ({ c with deferred := c.deferred.insert a.objective.id a }, [])
  | refuseBucket (now : Nat) {a : Addition} (hs : ∀ existing, c.store.get a.objective.id ≠ .ok (some existing))
    (e : ObjectiveError) (stop : Bool) : Opens c (.request now (.addBucket a)) (c.refused a.ticket e stop, [])
  | detach (now : Nat) (ticket : Ticket) {o : Objective} (port : PortNumber) {existing : Record}
    (hs : c.store.get o.id = .ok (some existing)) (i : Nat) (k : Key) (bs : List Bucket) (id : GroupId) :
    Opens c (.request now (.removeBucket ticket o port))
      ({ c with
          switch := c.switch.removeBuckets c.device k bs
          store := c.store.put { existing with chains := existing.chains.eraseIdx i }
          replies := c.replies ++ [⟨ticket, .installed id⟩] }, [])
  | refuseDetach (now : Nat) (ticket : Ticket) (o : Objective) (port : PortNumber) (e : ObjectiveError) (stop : Bool) :
    Opens c (.request now (.removeBucket ticket o port)) (c.refused ticket e stop, [])
  | remove (now : Nat) (ticket : Ticket) (o : Objective) :
    Opens c (.request now (.remove ticket o)) (c.remove ticket o, [])
  | added (k : Key) : Opens c (.event ⟨.added, k⟩) (c, [.resolve k])
  | removed (k : Key) : Opens c (.event ⟨.removed, k⟩) (c.release k, [])
  | error (k : Key) : Opens c (.event ⟨.error, k⟩) (c, [])
  | sweep : Opens c .sweep (c, (c.tracker.pendingKeys.filter fun k => (c.group? k).isSome).map .resolve)
  | expire (now : Nat) : Opens c (.expire now) (c.expire now, [])

theorem opens (c : Controller) (s : Stimulus) : c.Opens s (c.opening s) := by
  cases s with
  | request now r =>
    cases r with
    | install ticket o p =>
      rw [opening_install]
      exact .install now ticket o p rfl
    | addBucket a =>
      by_cases hs : ∃ existing, c.store.get a.objective.id = .ok (some existing)
      · obtain ⟨existing, hs⟩ := hs
        simp only [opening, hs, extend_eq]
        exact .extend now hs
      · rw [not_exists] at hs
        rw [opening_addBucket hs]
        rcases c.addBucket_cases hs with ⟨e, stop, he⟩ | ⟨ho, hn, he⟩
        · rw [he]
          exact .refuseBucket now hs e stop
        · rw [he]
          exact .defer now hs ho hn
    | removeBucket ticket o port =>
      simp only [opening, handle]
      rcases c.removeBucket_cases ticket o port with ⟨e, stop, he⟩ | ⟨existing, i, k, bs, id, hs, he⟩
      · rw [he]
        exact .refuseDetach now ticket o port e stop
      · rw [he]
        exact .detach now ticket port hs i k bs id
    | remove ticket o => exact .remove now ticket o
  | event e =>
    obtain ⟨kind, k⟩ := e
    cases kind with
    | added => exact .added k
    | removed => exact .removed k
    | error => exact .error k
  | sweep => exact .sweep
  | expire now => exact .expire now

/-- a handler is its opening, worked off if there is anything to work off -/
theorem respond_eq (c : Controller) (s : Stimulus) :
    c.respond s = (c.opening s).1.drain (c.opening s).2 ∨ ((c.opening s).2 = [] ∧ c.respond s = (c.opening s).1) := by
  cases s with
  | request now r =>
    cases r with
    | install ticket o p => exact Or.inl rfl
    | addBucket a =>
      simp only [respond, opening, handle]
      cases hs : c.store.get a.objective.id with
      | error e => exact Or.inr ⟨rfl, rfl⟩
      | ok stored =>
        cases stored with
        | none => exact Or.inr ⟨rfl, rfl⟩
        | some existing => exact Or.inl (by simp only [addBucket, hs])
    | removeBucket ticket o port => exact Or.inr ⟨rfl, rfl⟩
    | remove ticket o => exact Or.inr ⟨rfl, rfl⟩
  | event e =>
    obtain ⟨kind, k⟩ := e
    cases kind with
    | added => exact Or.inl rfl
    | removed => exact Or.inr ⟨rfl, rfl⟩
    | error => exact Or.inr ⟨rfl, rfl⟩
  | sweep =>
    simp only [respond, opening, sweep]
    split_ifs with hf
    · exact Or.inr ⟨by rw [hf]; rfl, rfl⟩
    · exact Or.inl rfl
  | expire now => exact Or.inr ⟨rfl, rfl⟩

end Controller

/-! ## Moments and moves -/

structure Moment where
  controller : Controller
  /-- what the handler still has to do; nothing between handlers -/
  queue : List Work
  /-- every request so far, in order -/
  accepted : List Request
  /-- every element registered so far -/
  registered : List Element
  /-- every element taken from the queue so far -/
  taken : List Element

inductive Move
  /-- the next item of the queue -/
  | work
  /-- a handler begins -/
  | handle (s : Stimulus)
  /-- something happens on the switch's side -/
  | switch (m : SwitchMove)
deriving DecidableEq, Repr

def Stimulus.request? : Stimulus → Option Request
  | .request _ r => some r
  | _ => none

/-- the elements of the buckets that wait for some objectives, which are registered when these are installed -/
def joining (deferred : Registry UInt32 Addition) : List Registrant → List Element
  | [] => []
  | r :: rs =>
    match deferred.get? r.objective.id with
    | some a => a.plan.elements ++ joining (deferred.erase r.objective.id) rs
    | none => joining deferred rs

def Work.element? : Work → Option Element
  | .element e => some e
  | _ => none

/-- the elements that an item of work registers -/
def Work.registers (c : Controller) : Work → List Element
  | .resolve k =>
    match (c.tracker.resolve k).2 with
    | .complete rs => joining c.deferred rs
    | _ => []
  | _ => []

/-- the elements that a stimulus registers -/
def Stimulus.registers (c : Controller) : Stimulus → List Element
  | .request _ (.install _ _ p) => p.elements
  | .request _ (.addBucket a) =>
    match c.store.get a.objective.id with
    | .ok (some _) => a.plan.elements
    | _ => []
  | _ => []

/-- what is registered at once belongs to the plan of the request -/
theorem Stimulus.plan_of_mem_registers (s : Stimulus) {c : Controller} {e : Element} (he : e ∈ s.registers c) :
    ∃ r p, s.request? = some r ∧ r.plan? = some p ∧ e ∈ p.elements := by
  cases s with
  | request now r =>
    cases r with
    | install ticket o p => exact ⟨_, p, rfl, rfl, he⟩
    | addBucket a =>
      simp only [registers] at he
      split at he
      · exact ⟨_, a.plan, rfl, rfl, he⟩
      · cases he
    | _ => cases he
  | _ => cases he

namespace Moment

def start (device : DeviceId) (delay : Nat) (switch : Switch) (store : Store) (metrics : Metrics) : Moment :=
  ⟨.start device delay switch store metrics, [], [], [], []⟩

/-- no handler is at work, and the controller takes what comes -/
def Idle (m : Moment) : Prop := m.queue = [] ∧ m.controller.isStopped = false

instance (m : Moment) : Decidable m.Idle := inferInstanceAs (Decidable (_ ∧ _))

/-- the next item is worked off; at the end of the queue the controller counts what is pending -/
def work (m : Moment) : Moment :=
  match m.queue with
  | [] => { m with controller := m.controller.updateGauges }
  | w :: ws =>
    { m with
      controller := (m.controller.process w).1
      queue := ws ++ (m.controller.process w).2
      registered := m.registered ++ w.registers m.controller
      taken := m.taken ++ w.element?.toList }

def begin (m : Moment) (s : Stimulus) : Moment :=
  { m with
    controller := (m.controller.opening s).1
    queue := (m.controller.opening s).2
    accepted := m.accepted ++ s.request?.toList
    registered := m.registered ++ s.registers m.controller }

def step (m : Moment) : Move → Moment
  | .work => m.work
  | .handle s => if m.Idle then m.begin s else m
  | .switch sm => { m with controller := { m.controller with switch := m.controller.switch.move sm } }

def run (m : Moment) (moves : List Move) : Moment := moves.foldl step m

theorem run_append (m : Moment) (l k : List Move) : m.run (l ++ k) = (m.run l).run k := List.foldl_append

theorem accepted_step {m : Moment} {r : Request} (h : r ∈ m.accepted) (move : Move) : r ∈ (m.step move).accepted := by
  cases move with
  | work =>
    simp only [step, work]
    split <;> exact h
  | handle s =>
    rw [step]
    split_ifs
    · exact List.mem_append_left _ h
    · exact h
  | switch sm => exact h

theorem accepted_run {m : Moment} {r : Request} (h : r ∈ m.accepted) (moves : List Move) :
    r ∈ (m.run moves).accepted := by
  induction moves generalizing m with
  | nil => exact h
  | cons move moves ih => exact ih (accepted_step h move)

theorem run_work (m : Moment) :
    ∃ n, (m.run (List.replicate n .work)).controller = m.controller.drain m.queue ∧
      (m.run (List.replicate n .work)).queue = [] ∧ (m.run (List.replicate n .work)).accepted = m.accepted := by
  obtain ⟨c, ws, acc, reg, taken⟩ := m
  induction c, ws using Controller.drain.induct generalizing reg taken with
  | case1 c => exact ⟨1, by rw [Controller.drain]; rfl, rfl, rfl⟩
  | case2 c w ws ih =>
    obtain ⟨n, hc, hrest⟩ := ih (reg ++ w.registers c) (taken ++ w.element?.toList)
    refine ⟨n + 1, ?_, hrest⟩
    rw [Controller.drain]
    exact hc

/-- **The opening of a handler and some items of work are the handler.** -/
theorem run_handle {m : Moment} (h : m.Idle) (s : Stimulus) :
    ∃ n, (m.run (.handle s :: List.replicate n .work)).controller = m.controller.respond s ∧
      (m.run (.handle s :: List.replicate n .work)).queue = [] ∧
      (m.run (.handle s :: List.replicate n .work)).accepted = m.accepted ++ s.request?.toList := by
  have hrun : ∀ moves, m.run (.handle s :: moves) = (m.begin s).run moves := by
    intro moves
    rw [run, List.foldl_cons, step, if_pos h]
    rfl
  simp only [hrun]
  rcases m.controller.respond_eq s with he | ⟨hq, he⟩
  · rw [he]
    exact run_work (m.begin s)
  · exact ⟨0, he.symm, hq, rfl⟩

end Moment

/-! ## Kinds of runs -/

/-- is every move of a run as `ok` says? -/
def Allowed (ok : Moment → Move → Prop) : Moment → List Move → Prop
  | _, [] => True
  | m, move :: moves => ok m move ∧ Allowed ok (m.step move) moves

instance Allowed.decidable (ok : Moment → Move → Prop) [∀ m move, Decidable (ok m move)] :
    ∀ m moves, Decidable (Allowed ok m moves)
  | _, [] => .isTrue trivial
  | m, move :: moves =>
    have := Allowed.decidable ok (m.step move) moves
    inferInstanceAs (Decidable (ok m move ∧ Allowed ok (m.step move) moves))

theorem allowed_and {A B : Moment → Move → Prop} {m : Moment} {moves : List Move} :
    Allowed (fun m move => A m move ∧ B m move) m moves ↔ Allowed A m moves ∧ Allowed B m moves := by
  induction moves generalizing m with
  | nil => exact ⟨fun _ => ⟨trivial, trivial⟩, fun _ => trivial⟩
  | cons move moves ih => exact (and_congr_right fun _ => ih).trans and_and_and_comm

theorem allowed_append {ok : Moment → Move → Prop} {m : Moment} {l k : List Move} :
    Allowed ok m (l ++ k) ↔ Allowed ok m l ∧ Allowed ok (m.run l) k := by
  induction l generalizing m with
  | nil => exact ⟨fun h => ⟨trivial, h⟩, fun h => h.2⟩
  | cons move l ih => exact (and_congr_right fun _ => ih).trans and_assoc.symm

/-- what each allowed move preserves holds all along an allowed run -/
theorem Allowed.keeps {ok : Moment → Move → Prop} {P : Moment → Prop}
    (hstep : ∀ m move, ok m move → P m → P (m.step move)) {moves : List Move} {m : Moment} (h : Allowed ok m moves)
    (hm : P m) : P (m.run moves) := by
  induction moves generalizing m with
  | nil => exact hm
  | cons move moves ih => exact ih h.2 (hstep m move h.1 hm)

/-- a request is one that a planner of the device makes, and has a ticket of its own -/
def Move.Admissible (device : DeviceId) (m : Moment) : Move → Prop
  | .handle (.request _ r) => r.Planned device ∧ r.ticket ∉ m.accepted.map Request.ticket
  | _ => True

/-- is it a request to remove an objective? -/
def Move.removes : Move → Bool
  | .handle (.request _ (.remove ..)) => true
  | _ => false

/-- does the switch reject a request? -/
def Move.rejects : Move → Bool
  | .switch (.reject _) => true
  | _ => false

/-- the group that is reported added -/
def Move.reported? : Move → Option Key
  | .handle (.event ⟨.added, k⟩) => some k
  | _ => none

def Move.request? : Move → Option Request
  | .handle s => s.request?
  | _ => none

theorem Moment.accepted_step_of_silent {m : Moment} {move : Move} (h : move.request? = none) :
    (m.step move).accepted = m.accepted := by
  cases move with
  | work =>
    simp only [step, work]
    split <;> rfl
  | handle s =>
    have hs : s.request? = none := h
    rw [step]
    split_ifs
    · simp [begin, hs]
    · rfl
  | switch sm => rfl

/-- a request is accepted when its handler begins, and never before -/
theorem Moment.of_accepted_step {m : Moment} {move : Move} {r : Request} (h : r ∈ (m.step move).accepted) :
    r ∈ m.accepted ∨ move.request? = some r := by
  cases move with
  | work =>
    simp only [step, work] at h
    split at h <;> exact Or.inl h
  | handle s =>
    rw [step] at h
    split_ifs at h
    · rcases List.mem_append.1 h with h | h
      · exact Or.inl h
      · exact Or.inr (Option.mem_toList.1 h)
    · exact Or.inl h
  | switch sm => exact Or.inl h

/-- every request that was accepted is planned -/
theorem Moment.planned_step {device : DeviceId} {m : Moment} {move : Move} (h : ∀ r ∈ m.accepted, r.Planned device)
    (ha : move.Admissible device m) : ∀ r ∈ (m.step move).accepted, r.Planned device := by
  intro r hr
  rcases of_accepted_step hr with hr | hr
  · exact h r hr
  · cases move with
    | handle s =>
      cases s with
      | request now q =>
        cases hr
        exact ha.1
      | _ => cases hr
    | _ => cases hr

/-- every request of a run from the start is planned -/
theorem Moment.planned_run {device : DeviceId} {delay : Nat} {switch : Switch} {store : Store} {metrics : Metrics}
    {moves : List Move}
    (h : Allowed (fun m move => move.Admissible device m) (.start device delay switch store metrics) moves) :
    ∀ r ∈ ((start device delay switch store metrics).run moves).accepted, r.Planned device :=
  h.keeps (P := fun m => ∀ r ∈ m.accepted, r.Planned device) (fun _ _ hmove hm => planned_step hm hmove)
    fun _ hr => (List.not_mem_nil hr).elim

/-- a move without a request is no removal, and may always be made -/
theorem Move.of_silent {move : Move} (h : move.request? = none) :
    ¬move.removes ∧ ∀ device m, move.Admissible device m := by
  cases move with
  | handle s =>
    cases s with
    | request now r => cases h
    | _ => exact ⟨Bool.false_ne_true, fun _ _ => trivial⟩
  | _ => exact ⟨Bool.false_ne_true, fun _ _ => trivial⟩

theorem allowed_admissible {device : DeviceId} {moves : List Move} (h : ∀ move ∈ moves, move.request? = none)
    (m : Moment) : Allowed (fun m move => move.Admissible device m) m moves := by
  induction moves generalizing m with
  | nil => trivial
  | cons move moves ih =>
    exact ⟨(Move.of_silent (h move List.mem_cons_self)).2 device m,
      ih (fun v hv => h v (List.mem_cons_of_mem move hv)) _⟩

/-- a group that is reported added is there -/
def Move.Truthful (m : Moment) (move : Move) : Prop := ∀ k ∈ move.reported?, m.controller.Stands k

instance (m : Moment) (move : Move) : Decidable (move.Truthful m) :=
  inferInstanceAs (Decidable (∀ k ∈ move.reported?, m.controller.Stands k))

/-! ## Groups along a run -/

/-- a handler begins without asking for a group -/
theorem Controller.same_opening {c : Controller} {s : Stimulus} (hr : ¬(Move.handle s).removes) :
    c.SameGroups (c.opening s).1 := by
  have h := c.opens s
  generalize c.opening s = x at h ⊢
  cases h with
  | install | extend | defer | refuseBucket | refuseDetach => exact .of_eq rfl rfl fun _ hj => hj
  | detach => exact (c.same_editBuckets _ _ _ _).trans (.of_eq rfl rfl fun _ hj => hj)
  | remove => exact absurd rfl hr
  | removed k => exact c.same_release k
  | expire now => exact c.same_expire now
  | added | error | sweep => exact .refl c

namespace Moment

/-- **Groups that stand go on standing** as long as no objective is removed. -/
theorem stands_step {m : Moment} {move : Move} (hr : ¬move.removes) {k : Key} (h : m.controller.Stands k) :
    (m.step move).controller.Stands k := by
  cases move with
  | work =>
    simp only [step, work]
    split
    · exact h
    · rename_i w ws _
      rcases m.controller.process_groups w with hs | ⟨d, -, he⟩
      · exact (hs.stands k).2 h
      · rw [he]
        exact Controller.stands_asked h
  | handle s =>
    rw [step]
    split_ifs
    · exact ((Controller.same_opening hr).stands k).2 h
    · exact h
  | switch sm => exact Switch.stands_move sm h

end Moment

/-! ## A run -/

namespace Sample

def device : DeviceId := ⟨"of:1"⟩

def dst : MacAddress := ⟨#v[0, 0, 94, 0, 83, 2]⟩

/-- one bucket: rewrite the destination, and leave through port 7 in a VLAN -/
def bucket (vlan : VlanId) : Treatment := ⟨[.setEthDst dst, .setVlanId vlan, .output ⟨7⟩]⟩

def objective : Objective := ⟨1, .simple, [bucket ⟨10⟩], ⟨"sample"⟩, none⟩

def inner (vlan : VlanId) : Descriptor :=
  objective.descriptor device .indirect [⟨⟨[.output ⟨7⟩]⟩⟩] (Key.l2Interface device vlan ⟨7⟩)
    (GroupId.l2Interface vlan ⟨7⟩)

def outer (vlan : VlanId) : Descriptor :=
  objective.descriptor device .indirect [⟨⟨[.setEthDst dst, .setVlanId vlan, .group (inner vlan).id]⟩⟩]
    (Key.l3Unicast device .zero dst ⟨7⟩) (GroupId.l3Unicast .zero dst ⟨7⟩)

def element (vlan : VlanId) : Element := .after (outer vlan) [(inner vlan).key] false

def plan : Plan :=
  ⟨1, [inner ⟨10⟩], [element ⟨10⟩], ⟨1, [[(outer ⟨10⟩).key, (inner ⟨10⟩).key]]⟩, (outer ⟨10⟩).key, (outer ⟨10⟩).id⟩

abbrev request : Request := .install 0 objective plan

theorem planned_request : request.Planned device := ⟨0, rfl⟩

def start : Moment := .start device 1000 (.fresh false) .empty .zero

/-- the objective is registered, and its first group asked for -/
def asked : List Move := [.handle (.request 0 request), .work]

/-- a group is confirmed, and the event delivered -/
def confirmed (k : Key) : List Move := [.switch (.confirm k), .handle (.event ⟨.added, k⟩)]

/-- the interface group is confirmed, which makes the element ready -/
def readied : List Move := asked ++ confirmed (inner ⟨10⟩).key ++ [.work]

/-- the other group is asked for and confirmed, and the objective is installed -/
def finished : List Move := [.work] ++ confirmed (outer ⟨10⟩).key ++ [.work]

theorem admissible (moves : List Move) (h : ∀ move ∈ moves, move.request? = none) :
    Allowed (fun m move => move.Admissible device m) start (asked ++ moves) :=
  ⟨⟨planned_request, List.not_mem_nil⟩, trivial, allowed_admissible h _⟩

end Sample

end FlowGroups
