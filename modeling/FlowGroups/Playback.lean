/-
Playing back a replay file: its entries are requested one after the other, each once the one before
is answered, and what becomes of them is logged.
-/
import FlowGroups.Service

namespace FlowGroups

inductive LogLine
  /-- the operation is done; if groups were installed, the top-level one is named -/
  | applied (op : Operation) (objective : UInt32) (group : Option GroupId)
  | failed (op : Operation) (objective : UInt32) (e : ObjectiveError)
  /-- the entry at an index could not be read -/
  | skipped (index : Nat) (e : ObjectiveError)
deriving DecidableEq, Repr

def LogLine.ofOutcome (entry : Entry) : Outcome → LogLine
  | .installed id => .applied entry.op entry.objective.id (some id)
  | .removed => .applied entry.op entry.objective.id none
  | .failed e => .failed entry.op entry.objective.id e

structure Playback where
  /-- the index of the first line of `rest` -/
  index : Nat
  rest : List Replay.Line
  /-- the entry that was requested last, if it is not answered yet -/
  waiting : Option (Ticket × Entry)
  log : List LogLine
  isDone : Bool

namespace Playback

def start (lines : List Replay.Line) : Playback := ⟨0, lines, none, [], false⟩

/-- goes through the lines as far as the answers come at once -/
def play (s : Service) (now index : Nat) (log : List LogLine) :
    List Replay.Line → Service × Playback
  | [] => (s, ⟨index, [], none, log, true⟩)
  | .error e :: rest => play s now (index + 1) (log ++ [.skipped index e]) rest
  | .ok entry :: rest =>
    match s.request now entry.op entry.objective with
    | (s, .error _) => (s, ⟨index + 1, rest, none, log, true⟩)
    | (s, .ok ticket) =>
      match s.answer? ticket with
      | some outcome => play s now (index + 1) (log ++ [.ofOutcome entry outcome]) rest
      | none => (s, ⟨index + 1, rest, some (ticket, entry), log, false⟩)

/-- goes on if the awaited answer is there; a controller that has ended ends the playback too -/
def resume (p : Playback) (s : Service) (now : Nat) : Service × Playback :=
  if p.isDone then (s, p)
  else
    match p.waiting with
    | none => play s now p.index p.log p.rest
    | some (ticket, entry) =>
      match s.answer? ticket with
      | some outcome => play s now p.index (p.log ++ [.ofOutcome entry outcome]) p.rest
      | none =>
        if s.controller.isStopped then (s, { p with waiting := none, isDone := true }) else (s, p)

/-- is there anything for `resume` to do? -/
def isReady (p : Playback) (s : Service) : Bool :=
  !p.isDone &&
    match p.waiting with
    | some (ticket, _) => s.isSettled ticket
    | none => true

end Playback

end FlowGroups
