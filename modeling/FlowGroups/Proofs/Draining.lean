/-
How long a handler is at work. A turn of the queue works off its first item, and what the item leads to goes to the end.
An element comes out of waiting once, and the groups of a bucket that is put aside are queued once, so what the tracker
and the deferred buckets can still bring to the queue is limited from the start (`backlog`). Neither the requests that
are on their way nor the events that the switch emits add to it.

- `backlog_process`: every item leaves less to do, in the queue and behind it.
- `queue_runs_dry`: from every controller and every queue a limited number of turns empties the queue, and this is where
  the handler ends.
- `Moment.queue_empty_of_turns`: so many turns empty it too if the switch moves in between.
-/
import Mathlib.Logic.Function.Iterate
import FlowGroups.Proofs.Run

namespace FlowGroups

namespace Controller

/-- what elements that wait and buckets that are put aside can still bring to the queue -/
def backlog (c : Controller) : Nat := 3 * c.tracker.waiting.length + 3 * c.deferredGroups.length

theorem potential_eq (c : Controller) : c.potential = c.backlog + 2 * c.switch.events.length := rfl

/-- work takes no event back -/
theorem length_events_process (c : Controller) (w : Work) :
    c.switch.events.length ≤ (c.process w).1.switch.events.length := by
  have hdone := c.performs w
  generalize c.process w = x at hdone ⊢
  cases hdone with
  | awaited | found => exact le_rfl
  | ask => cases h : c.switch.isAutomatic <;> simp [asked, Switch.addGroup, Switch.log, Switch.emit, h]
  | addBuckets => exact (congrArg List.length (events_addBuckets c.switch _ _ _)).ge
  | confirm k => exact (congrArg (fun s : Switch => s.events.length) (c.confirm_spares k).1).ge

/-- **Every item leaves less to do**, whatever is requested and whatever the switch makes of it. -/
theorem backlog_process (c : Controller) (w : Work) :
    (c.process w).1.backlog + Work.total (c.process w).2 < c.backlog + w.weight := by
  have hless := c.potential_process w
  have hevents := c.length_events_process w
  rw [potential_eq, potential_eq] at hless
  omega

/-! ## Turns -/

/-- one turn of the queue; an empty queue has none -/
def turn : Controller × List Work → Controller × List Work
  | (c, []) => (c, [])
  | (c, w :: ws) => ((c.process w).1, ws ++ (c.process w).2)

/-- **The queue runs dry.** From every controller, with any tracker, requests, deferred buckets and switch, and from
every queue there is a number of turns that is limited by what is queued, waits or is put aside at the start, after
which the queue is empty, and not before. The handler ends exactly there, and looks at what is pending. -/
theorem queue_runs_dry (c : Controller) (ws : List Work) :
    ∃ n, ws.length ≤ n ∧ n ≤ c.backlog + Work.total ws ∧ (∀ i, (turn^[i] (c, ws)).2 = [] ↔ n ≤ i) ∧
      c.drain ws = (turn^[n] (c, ws)).1.updateGauges := by
  induction c, ws using drain.induct with
  | case1 c =>
    refine ⟨0, le_rfl, Nat.zero_le _, fun i => ?_, by rw [drain]; rfl⟩
    have hrest : turn^[i] (c, []) = (c, []) := Function.iterate_fixed rfl i
    rw [hrest]
    exact iff_of_true rfl (Nat.zero_le i)
  | case2 c w ws ih =>
    obtain ⟨n, hlong, hlimit, hdry, hdrain⟩ := ih
    have hless := c.backlog_process w
    rw [List.length_append] at hlong
    rw [Work.total_append] at hlimit
    refine ⟨n + 1, ?_, ?_, fun i => ?_, ?_⟩
    · rw [List.length_cons]
      omega
    · rw [Work.total]
      omega
    · cases i with
      | zero => exact iff_of_false (List.cons_ne_nil w ws) (Nat.not_succ_le_zero n)
      | succ i =>
        rw [Function.iterate_succ_apply, Nat.add_le_add_iff_right]
        exact hdry i
    · rw [drain, Function.iterate_succ_apply]
      exact hdrain

end Controller

/-! ## While the switch moves -/

namespace Moment

/-- what the queue holds and what can still get there -/
def load (m : Moment) : Nat := m.controller.backlog + Work.total m.queue

theorem load_work {m : Moment} (h : m.queue ≠ []) : (m.step .work).load < m.load := by
  obtain ⟨c, ws, acc, reg, taken⟩ := m
  cases ws with
  | nil => exact absurd rfl h
  | cons w ws =>
    have hless := c.backlog_process w
    simp only [load, step, work, Work.total_append, Work.total]
    omega

/-- only a handler that begins puts something into an empty queue -/
theorem queue_stays_empty {m : Moment} {moves : List Move} (hm : ∀ s, .handle s ∉ moves) (h : m.queue = []) :
    (m.run moves).queue = [] := by
  induction moves generalizing m with
  | nil => exact h
  | cons move moves ih =>
    refine ih (fun s hs => hm s (List.mem_cons_of_mem _ hs)) ?_
    cases move with
    | work => simp [step, work, h]
    | handle s => exact absurd List.mem_cons_self (hm s)
    | switch sm => exact h

/-- turns empty the queue even if the switch confirms, rejects or reorders something between them -/
theorem queue_empty_of_turns {m : Moment} {moves : List Move} (hm : ∀ s, .handle s ∉ moves)
    (h : m.load ≤ moves.count .work) : (m.run moves).queue = [] := by
  by_cases hq : m.queue = []
  · exact queue_stays_empty hm hq
  have hless := load_work hq
  induction moves generalizing m with
  | nil =>
    rw [List.count_nil] at h
    omega
  | cons move moves ih =>
    have hm' : ∀ s, .handle s ∉ moves := fun s hs => hm s (List.mem_cons_of_mem _ hs)
    cases move with
    | work =>
      rw [List.count_cons_self] at h
      by_cases hq' : (m.step .work).queue = []
      · exact queue_stays_empty (m := m.step .work) hm' hq'
      · exact ih (m := m.step .work) hm' (by omega) hq' (load_work hq')
    | handle s => exact absurd List.mem_cons_self (hm s)
    | switch sm =>
      rw [List.count_cons_of_ne (by simp)] at h
      exact ih (m := m.step (.switch sm)) hm' h hq (load_work hq)

end Moment

end FlowGroups
