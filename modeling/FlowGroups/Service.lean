/-
The service that applications talk to: a planner in front of a controller. An objective that cannot
be planned is answered at once, and the controller never hears of it.
-/
import FlowGroups.Controller.Handlers
import FlowGroups.Plan.Build
import FlowGroups.Replay

namespace FlowGroups

/-- nobody is there any more to take a request -/
inductive ServiceError
  | controllerEnded
deriving DecidableEq, Repr

def ServiceError.message : ServiceError → String
  | controllerEnded => "group controller is no longer running"

structure Service where
  planner : Planner
  controller : Controller
  nextTicket : Ticket

namespace Service

/-- a service with nothing planned or pending; tickets count on from `nextTicket` -/
def start (device : DeviceId) (delay : Nat) (switch : Switch) (store : Store) (metrics : Metrics)
    (nextTicket : Ticket) : Service :=
  ⟨.fresh device, .start device delay switch store metrics, nextTicket⟩

/-- the request that an operation on an objective comes to, and the planner afterwards -/
def plan (s : Service) (op : Operation) (o : Objective) : Except PlanError Request × Planner :=
  let ticket := s.nextTicket
  match op with
  | .add =>
    let (plan, planner) := s.planner.build o
    (plan.map (.install ticket o), planner)
  | .addBucket =>
    let (plan, planner) := s.planner.buildAddBucket o
    (plan.map fun p => .addBucket ⟨ticket, o, p⟩, planner)
  | .removeBucket => (o.removalPort.map (.removeBucket ticket o), s.planner)
  | .remove => (.ok (.remove ticket o), s.planner)

/-- Makes a request. A controller that has ended takes none, but an objective that cannot be planned
is still answered. -/
def request (s : Service) (now : Nat) (op : Operation) (o : Objective) :
    Service × Except ServiceError Ticket :=
  let (request, planner) := s.plan op o
  match request with
  | .error e =>
    ({ planner
       controller := s.controller.countFailure.fail s.nextTicket (.unplannable e)
       nextTicket := s.nextTicket + 1 }, .ok s.nextTicket)
  | .ok request =>
    if s.controller.isStopped then ({ s with planner }, .error .controllerEnded)
    else
      ({ planner
         controller := s.controller.handle now request
         nextTicket := s.nextTicket + 1 }, .ok s.nextTicket)

/-- the answer to a request, once there is one -/
def answer? (s : Service) (ticket : Ticket) : Option Outcome :=
  (s.controller.replies.find? fun r => r.ticket = ticket).map (·.outcome)

/-- is there nothing left to wait for, be it with an answer or without? -/
def isSettled (s : Service) (ticket : Ticket) : Bool :=
  s.controller.isStopped || (s.answer? ticket).isSome

end Service

end FlowGroups
