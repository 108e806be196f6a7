/-
A session: a service in virtual time, with somebody at the switch and playbacks beside the requests.

After every command the session settles. Requests are handled where they are made, playbacks go as
far as they can, and only when everything waits is the oldest event of the switch delivered.
-/
import FlowGroups.Playback

namespace FlowGroups

structure Session where
  device : DeviceId
  /-- how long an objective may wait for confirmation -/
  delay : Nat
  /-- sweeps come at the multiples of this -/
  sweepEvery : Nat
  service : Service
  now : Nat
  /-- events are kept back -/
  isHolding : Bool
  /-- requests whose outcome is to be reported, with their numbers -/
  unreported : List (Ticket × Nat)
  /-- numbers of requests that lost their controller since the last report -/
  lost : List Nat
  nextRequest : Nat
  /-- the latest first -/
  playbacks : List Playback
  /-- how many of the switch's requests are reported already -/
  opsReported : Nat

namespace Session

def start (device : DeviceId) (delay sweepEvery : Nat) (isAutomatic : Bool) : Session :=
  { device, delay, sweepEvery
    service := .start device delay (.fresh isAutomatic) .empty .zero 0
    now := 0
    isHolding := false
    unreported := []
    lost := []
    nextRequest := 0
    playbacks := []
    opsReported := 0 }

def controller (s : Session) : Controller := s.service.controller

def switch (s : Session) : Switch := s.controller.switch

def withController (s : Session) (c : Controller) : Session :=
  { s with service := { s.service with controller := c } }

def withSwitch (s : Session) (switch : Switch) : Session :=
  s.withController { s.controller with switch }

def withStore (s : Session) (store : Store) : Session :=
  s.withController { s.controller with store }

/-! ## Settling -/

/-- lets playbacks go on, the earliest first -/
def resumeAll (now : Nat) : Service → List Playback → Service × List Playback
  | s, [] => (s, [])
  | s, p :: ps =>
    let (s, ps) := resumeAll now s ps
    let (s, p) := p.resume s now
    (s, p :: ps)

/-- lets every playback go on as far as it can -/
def resume (s : Session) : Session :=
  let (service, playbacks) := resumeAll s.now s.service s.playbacks
  { s with service, playbacks }

def isReady (s : Session) : Bool := s.playbacks.any fun p => p.isReady s.service

/-- delivers events until a playback can go on -/
def deliver (s : Session) : Session :=
  if s.isHolding then s
  else
    s.withController <| s.controller.deliverUntil fun c =>
      s.playbacks.any fun p => p.isReady { s.service with controller := c }

/-- turns of playing and delivering, as long as a playback can go on -/
def turns : Nat → Session → Session
  | 0, s => s
  | n + 1, s =>
    let s := s.resume.deliver
    if s.isReady then turns n s else s

/-- a turn that is not the last takes up an entry or ends a playback -/
def settle (s : Session) : Session :=
  s.turns ((s.playbacks.flatMap (·.rest)).length + s.playbacks.length + 1)

/-! ## Commands -/

/-- makes a request and numbers it, if there is a controller to take it -/
def request (s : Session) (op : Operation) (o : Objective) (isForgotten : Bool) :
    Session × Except ServiceError Nat :=
  let (service, ticket) := s.service.request s.now op o
  let s := { s with service }
  match ticket with
  | .error e => (s.settle, .error e)
  | .ok ticket =>
    let n := s.nextRequest
    let unreported := if isForgotten then s.unreported else s.unreported ++ [(ticket, n)]
    ({ s with nextRequest := n + 1, unreported }.settle, .ok n)

/-- does something about some keys at the switch, one after the other -/
def atSwitch (f : Switch → Key → Switch × Bool) :
    Switch → List Key → Switch × List (Key × Bool)
  | switch, [] => (switch, [])
  | switch, k :: ks =>
    let (switch, done) := f switch k
    let (switch, rest) := atSwitch f switch ks
    (switch, (k, done) :: rest)

/-- what is requested from the switch, in ascending order -/
def requestedKeys (s : Session) : List Key :=
  s.switch.requestedKeys.mergeSort fun a b => !decide (b < a)

/-- confirms keys, rejects them, or installs them without a word -/
def manage (s : Session) (f : Switch → Key → Switch × Bool) (ks : List Key) :
    Session × List (Key × Bool) :=
  let (switch, done) := atSwitch f s.switch ks
  ((s.withSwitch switch).settle, done)

def emit (s : Session) (e : Event) : Session := (s.withSwitch (s.switch.emit e)).settle

/-- confirms all requests again and again, at most `rounds` times; how often there were any -/
def drive : Nat → Session → Session × Nat
  | 0, s => (s, 0)
  | rounds + 1, s =>
    match s.requestedKeys with
    | [] => (s, 0)
    | ks =>
      let (s, n) := drive rounds (s.manage Switch.confirm ks).1
      (s, n + 1)

def hold (s : Session) : Session := { s with isHolding := true }.settle

/-- delivers one event and lets playbacks go on -/
def releaseOne (s : Session) : Session :=
  match s.switch.events with
  | [] => s
  | e :: rest => (s.withController (s.controller.deliver e rest)).settle

/-- delivers a number of events and goes on holding, or stops holding -/
def release (s : Session) : Option Nat → Session
  | none => { s with isHolding := false }.settle
  | some count => (Nat.repeat releaseOne count { s with isHolding := true }).settle

/-- the events that are queued never arrive -/
def lose (s : Session) : Session := (s.withSwitch { s.switch with events := [] }).settle

/-- lets the controller do something of its own accord; one that has ended does nothing -/
def stir (s : Session) (f : Controller → Controller) : Session :=
  if s.controller.isStopped then s else s.withController (f s.controller)

/-- the sweep of an instant, if there is one, comes before its expiries -/
def tick (s : Session) : Session :=
  let s := { s with now := s.now + 1 }
  let s := if s.now % s.sweepEvery = 0 then (s.stir Controller.sweep).settle else s
  (s.stir (·.expireIfDue s.now)).settle

def advance (s : Session) (units : Nat) : Session := Nat.repeat tick units s

/-- a new controller over the same switch and store, from which all time starts again -/
def restart (s : Session) : Session :=
  { s with
    service := .start s.device s.delay { s.switch with events := [] } s.controller.store
      s.controller.metrics s.service.nextTicket
    now := 0
    isHolding := false
    unreported := []
    lost := s.lost ++ s.unreported.map Prod.snd
    playbacks := [] }

/-- starts to play back a file -/
def playBack (s : Session) (text : Octets) : Session × Except ReplayError Unit :=
  match Replay.read text with
  | .error e => (s, .error e)
  | .ok lines => ({ s with playbacks := .start lines :: s.playbacks }.settle, .ok ())

/-! ## Reports -/

/-- how a request ended, as far as its owner can tell -/
inductive Ending
  | answered (outcome : Outcome)
  /-- the controller went away without an answer -/
  | dropped
deriving DecidableEq, Repr

/-- the endings that nobody has been told of, by request number -/
def endings (s : Session) : List (Nat × Ending) :=
  let answered := s.unreported.filterMap fun (ticket, n) =>
    match s.service.answer? ticket with
    | some outcome => some (n, .answered outcome)
    | none => if s.controller.isStopped then some (n, .dropped) else none
  (s.lost.map fun n => (n, .dropped)) ++ answered

/-- the switch's requests that nobody has been told of -/
def newOps (s : Session) : List SwitchOp := s.switch.ops.drop s.opsReported

/-- how many events are kept back -/
def held (s : Session) : Nat := if s.isHolding then s.switch.events.length else 0

/-- everything up to now has been told -/
def reported (s : Session) : Session :=
  { s with
    unreported := s.unreported.filter fun e => !s.service.isSettled e.1
    lost := []
    opsReported := s.switch.ops.length
    playbacks := s.playbacks.map fun p => { p with log := [] } }

end Session

end FlowGroups
