/-
The daemon: one run over a store that outlives it. A run recovers the records that are there, plays
back the objectives it is given on a switch that confirms everything at once, and stops when all
work has come to rest.
-/
import FlowGroups.Session
import FlowGroups.Settings

namespace FlowGroups

/-- the objectives a run is to start with -/
inductive StartFile
  | none
  /-- a file is named and cannot be read -/
  | missing
  | text (octets : Octets)
deriving DecidableEq, Repr

inductive StartError
  | database
  | recovery
  | replay
deriving DecidableEq, Repr

def StartError.message : StartError → String
  | database => "error opening database"
  | recovery => "error listing recovered next group records"
  | replay => "error setting up objectives replay"

namespace Daemon

structure Run where
  /-- the records found at the start, by ascending id -/
  recovered : List Record
  log : List LogLine
  metrics : Metrics
  store : Store

/-- a session over an existing store -/
def session (device : DeviceId) (store : Store) : Session :=
  let s := Session.start device Settings.defaultExpiryMillis Settings.defaultSweepMillis true
  s.withStore store

/-- plays back the objectives of a run -/
def play (s : Session) : StartFile → Except StartError Session
  | .none => .ok s
  | .missing => .error .replay
  | .text octets =>
    match s.playBack octets with
    | (_, .error _) => .error .replay
    | (s, .ok ()) => .ok s

/-- one run; nothing is written unless all that it starts from is in order -/
def run (device : DeviceId) (store : Store) (isStorageUsable : Bool) (file : StartFile) :
    Except StartError Run := do
  if !isStorageUsable then throw .database
  match store.list with
  | .error _ => throw .recovery
  | .ok recovered =>
    let s ← play (session device store) file
    pure
      { recovered
        log := s.playbacks.flatMap (·.log)
        metrics := s.controller.metrics
        store := s.controller.store }

end Daemon

end FlowGroups
