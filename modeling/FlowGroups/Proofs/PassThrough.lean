/-
Immediate pass-through. An objective is submitted all of whose groups stand already and are not on their way, while
other objectives and elements may wait, none of them for these groups. Every group is then found as soon as it is asked
for, and the objective is answered before its handler ends.

What else waits is kept apart: the tracker is compared with one that holds nothing but the new objective, and goes on
beside it (`Tracker.Beside`). There the plan is worked off as one whose groups are settled (`Replaying`).

- `Tracker.Beside.registerAll`, `advance`, `discharge`: what is done for keys that nobody else waits for is done to the
  one part only.
- `Controller.Beside.process`: an item of work does the same in both controllers.
- `Passing.process`, `Passing.finished`: the plan is worked off, and nothing else has changed in the end.
- `passes_through_at_once`: the answer, the record, and all that stays as it was.
-/
import FlowGroups.Proofs.Purging
import FlowGroups.Proofs.Resubmission

namespace FlowGroups

/-! ## Registries side by side -/

/-- `u` has the entries of `r`, and those of `s` behind them -/
def Registry.Beside {κ α : Type} (r s u : Registry κ α) : Prop := u.entries = r.entries ++ s.entries

namespace Registry.Beside

theorem empty {κ α : Type} (r : Registry κ α) : r.Beside .empty r := (List.append_nil r.entries).symm

theorem eq_of_empty {κ α : Type} {r u : Registry κ α} (h : r.Beside .empty u) : u = r :=
  Registry.ext (h.trans (List.append_nil r.entries))

variable {κ α : Type} [DecidableEq κ] {r s u : Registry κ α} {k : κ}

theorem get? (h : r.Beside s u) (hk : r.get? k = none) : u.get? k = s.get? k := by
  have hnone : r.entries.find? (fun e => e.1 = k) = none := Option.map_eq_none_iff.1 hk
  rw [Registry.get?, h, List.find?_append, hnone, Option.none_or]
  rfl

theorem erase (h : r.Beside s u) (hk : r.get? k = none) : r.Beside (s.erase k) (u.erase k) := by
  have hsame : (r.erase k).entries = r.entries := by rw [Registry.erase_eq_self hk]
  calc (u.erase k).entries
      = (r.entries ++ s.entries).filter fun e => e.1 ≠ k := congrArg (List.filter _) h
    _ = (r.erase k).entries ++ (s.erase k).entries := List.filter_append ..
    _ = r.entries ++ (s.erase k).entries := by rw [hsame]

theorem insert (h : r.Beside s u) (hk : r.get? k = none) (v : α) : r.Beside (s.insert k v) (u.insert k v) := by
  calc (u.insert k v).entries
      = (u.erase k).entries ++ [(k, v)] := rfl
    _ = r.entries ++ (s.erase k).entries ++ [(k, v)] := by rw [h.erase hk]
    _ = r.entries ++ (s.insert k v).entries := List.append_assoc ..

end Registry.Beside

/-! ## Trackers side by side -/

namespace Tracker

/-- `u` holds all that `t` holds, and behind it all that `s` holds, with lists of ids that are about elements of `s` -/
structure Beside (t s u : Tracker) : Prop where
  waiting : u.waiting = t.waiting ++ s.waiting
  groups : t.groups.Beside s.groups u.groups
  objectives : t.objectives.Beside s.objectives u.objectives
  nextId : u.nextId = s.nextId
  nextGeneration : u.nextGeneration = s.nextGeneration
  older : ∀ w ∈ t.waiting, w.id < s.nextId
  apart : ∀ w ∈ t.waiting, ∀ k, w.id ∉ s.awaiting k

/-- nothing waits in the tracker, but it counts on -/
def vacant (t : Tracker) : Tracker := { t with waiting := [], groups := .empty, objectives := .empty }

theorem consistent_vacant (t : Tracker) : t.vacant.Consistent := by
  constructor <;> simp [vacant, awaiting]

theorem pendingKeys_vacant (t : Tracker) : t.vacant.pendingKeys = [] := rfl

theorem Linked.beside_vacant {t : Tracker} (h : t.Linked) : t.Beside t.vacant t where
  waiting := (List.append_nil t.waiting).symm
  groups := .empty t.groups
  objectives := .empty t.objectives
  nextId := rfl
  nextGeneration := rfl
  older := h.below
  apart := fun _ _ _ => List.not_mem_nil

theorem isPending_eq_false_iff {t : Tracker} {k : Key} :
    t.isPending k = false ↔ t.groups.get? k = none ∧ t.objectives.get? k = none := by
  rw [isPending, Bool.or_eq_false_iff, Registry.contains_eq_isSome, Registry.contains_eq_isSome]
  simp

namespace Beside

variable {t s u : Tracker} {k : Key}

theorem registerObjective (h : t.Beside s u) (hk : t.isPending k = false) (r : Registrant) (now : Nat) :
    t.Beside (s.registerObjective k r now) (u.registerObjective k r now) := by
  obtain ⟨-, ho⟩ := isPending_eq_false_iff.1 hk
  refine { h with objectives := ?_, nextGeneration := ?_ }
  · rw [Tracker.registerObjective, Tracker.registerObjective, h.objectives.get? ho, h.nextGeneration]
    exact h.objectives.insert ho _
  · exact congrArg (· + 1) h.nextGeneration

theorem groups_await {g g' : Registry Key (List Nat)} {ks : List Key} (h : t.groups.Beside g g')
    (hk : ∀ k ∈ ks, t.groups.get? k = none) (id : Nat) :
    t.groups.Beside (ks.foldl (await id) g) (ks.foldl (await id) g') := by
  induction ks generalizing g g' with
  | nil => exact h
  | cons k ks ih =>
    have hfree := hk k List.mem_cons_self
    have hone : t.groups.Beside (await id g k) (await id g' k) := by
      rw [await, await, h.get? hfree]
      exact h.insert hfree _
    exact ih hone fun j hj => hk j (List.mem_cons_of_mem k hj)

theorem enlist (h : t.Beside s u) {e : Element} (he : ∀ k ∈ e.waitOn, t.isPending k = false) (owner : Key) :
    t.Beside (s.enlist e owner) (u.enlist e owner) where
  waiting := by
    rw [Tracker.enlist, Tracker.enlist, h.waiting, h.nextId]
    exact List.append_assoc ..
  groups := by
    rw [Tracker.enlist, Tracker.enlist, h.nextId]
    exact groups_await h.groups (fun k hk => (isPending_eq_false_iff.1 (he k hk)).1) s.nextId
  objectives := h.objectives
  nextId := congrArg (· + 1) h.nextId
  nextGeneration := h.nextGeneration
  older := fun w hw => Nat.lt_succ_of_lt (h.older w hw)
  apart := fun w hw k hid => by
    rcases (mem_awaiting_enlist s e owner k w.id).1 hid with hold | ⟨hnew, -⟩
    · exact h.apart w hw k hold
    · exact Nat.ne_of_lt (h.older w hw) hnew

theorem registerAll (h : t.Beside s u) {es : List Element} (he : ∀ e ∈ es, ∀ k ∈ e.waitOn, t.isPending k = false)
    (owner : Key) : t.Beside (s.registerAll owner es).1 (u.registerAll owner es).1 := by
  induction es generalizing s u with
  | nil => exact h
  | cons e es ih =>
    have hrest : ∀ f ∈ es, ∀ k ∈ f.waitOn, t.isPending k = false := fun f hf => he f (List.mem_cons_of_mem e hf)
    by_cases hw : e.waitOn = []
    · rw [registerAll_cons_of_eq es hw, registerAll_cons_of_eq es hw]
      exact ih h hrest
    · rw [registerAll_cons_of_ne es hw, registerAll_cons_of_ne es hw]
      exact ih (h.enlist (he e List.mem_cons_self) owner) hrest

theorem advance (h : t.Beside s u) (hk : t.isPending k = false) {ids : List Nat} (hg : s.groups.get? k = some ids) :
    t.Beside (s.advance k ids) (u.advance k ids) ∧ u.readyAfter ids = s.readyAfter ids := by
  obtain ⟨hfree, -⟩ := isPending_eq_false_iff.1 hk
  have hother : ∀ w ∈ t.waiting, w.id ∉ ids := by
    intro w hw hid
    apply h.apart w hw k
    rw [awaiting, hg]
    exact hid
  obtain ⟨hstays, hnone⟩ := filter_countDown_of_not_mem hother
  refine ⟨{ h with waiting := ?_, groups := h.groups.erase hfree, apart := fun w hw j hid => ?_ }, ?_⟩
  · rw [Tracker.advance, Tracker.advance, h.waiting, List.map_append, List.filter_append, hstays]
  · rw [awaiting_advance] at hid
    split_ifs at hid
    · exact List.not_mem_nil hid
    · exact h.apart w hw j hid
  · rw [readyAfter, readyAfter, h.waiting, List.map_append, List.filter_append, hnone, List.nil_append]

theorem discharge (h : t.Beside s u) (hk : t.isPending k = false) : t.Beside (s.discharge k) (u.discharge k) :=
  { h with objectives := h.objectives.erase (isPending_eq_false_iff.1 hk).2 }

end Beside
end Tracker

/-! ## Controllers side by side -/

/-- `b` is `a` but for its tracker, which holds all that `t` holds besides -/
def Controller.Beside (t : Tracker) (a b : Controller) : Prop :=
  ∃ u, t.Beside a.tracker u ∧ b = { a with tracker := u }

namespace Controller.Beside

variable {t : Tracker} {a b : Controller} {k : Key}

theorem submit (h : Beside t a b) (d : Descriptor) :
    Beside t (a.submit d).1 (b.submit d).1 ∧ (b.submit d).2 = (a.submit d).2 := by
  obtain ⟨u, hu, rfl⟩ := h
  have hgroup : { a with tracker := u }.group? d.key = a.group? d.key := rfl
  unfold Controller.submit
  rw [hgroup]
  split_ifs <;> exact ⟨⟨u, hu, rfl⟩, rfl⟩

theorem completeAll (h : Beside t a b) {rs : List Registrant}
    (hrs : ∀ r ∈ rs, a.deferred.get? r.objective.id = none) (k : Key) :
    Beside t (a.completeAll k rs).1 (b.completeAll k rs).1 ∧ (b.completeAll k rs).2 = (a.completeAll k rs).2 := by
  induction rs generalizing a b with
  | nil => exact ⟨h, rfl⟩
  | cons r rs ih =>
    obtain ⟨u, hu, rfl⟩ := h
    have hr := hrs r List.mem_cons_self
    have hr' : { a with tracker := u }.deferred.get? r.objective.id = none := hr
    have hone : Beside t (a.recorded k r) ({ a with tracker := u }.recorded k r) := ⟨u, hu, rfl⟩
    obtain ⟨hall, hwork⟩ := ih hone fun s hs => hrs s (List.mem_cons_of_mem r hs)
    simp only [Controller.completeAll, complete_of_none hr, complete_of_none hr']
    exact ⟨hall, hwork⟩

theorem confirm (h : Beside t a b) (hk : t.isPending k = false)
    (haside : ∀ rs, a.tracker.objectives.get? k = some rs → ∀ r ∈ rs.list, a.deferred.get? r.objective.id = none) :
    Beside t (a.confirm k).1 (b.confirm k).1 ∧ (b.confirm k).2 = (a.confirm k).2 := by
  obtain ⟨u, hu, rfl⟩ := h
  obtain ⟨hfree, hfree'⟩ := Tracker.isPending_eq_false_iff.1 hk
  have hgroups : { a with tracker := u }.tracker.groups.get? k = a.tracker.groups.get? k := hu.groups.get? hfree
  have hobjectives : { a with tracker := u }.tracker.objectives.get? k = a.tracker.objectives.get? k :=
    hu.objectives.get? hfree'
  cases hg : a.tracker.groups.get? k with
  | some ids =>
    obtain ⟨hadvance, hready⟩ := hu.advance hk hg
    rw [confirm_of_awaited hg, confirm_of_awaited (hgroups.trans hg)]
    exact ⟨⟨_, hadvance, rfl⟩, congrArg (List.map Work.element) hready⟩
  | none =>
    cases ho : a.tracker.objectives.get? k with
    | some rs =>
      have hstart : Beside t { a.release k with tracker := a.tracker.discharge k }
          { { a with tracker := u }.release k with tracker := u.discharge k } := ⟨_, hu.discharge hk, rfl⟩
      rw [confirm_of_registered hg ho, confirm_of_registered (hgroups.trans hg) (hobjectives.trans ho)]
      exact hstart.completeAll (haside rs ho) k
    | none =>
      rw [confirm_of_unknown hg ho, confirm_of_unknown (hgroups.trans hg) (hobjectives.trans ho)]
      exact ⟨⟨u, hu, rfl⟩, rfl⟩

/-- **One item of work.** -/
theorem process {w : Work} (h : Beside t a b) (hw : ∀ k, w = .resolve k → t.isPending k = false)
    (haside : ∀ k rs, a.tracker.objectives.get? k = some rs → ∀ r ∈ rs.list,
      a.deferred.get? r.objective.id = none) :
    Beside t (a.process w).1 (b.process w).1 ∧ (b.process w).2 = (a.process w).2 := by
  cases w with
  | create d => exact h.submit d
  | element e =>
    simp only [Controller.process, act]
    split_ifs
    · obtain ⟨u, hu, rfl⟩ := h
      exact ⟨⟨u, hu, rfl⟩, rfl⟩
    · exact h.submit e.descriptor
  | resolve k => exact h.confirm (hw k rfl) (haside k)

theorem install (h : Beside t a b) {p : Plan} (htop : t.isPending p.topKey = false)
    (hwait : ∀ e ∈ p.elements, ∀ k ∈ e.waitOn, t.isPending k = false) (now : Nat) (ticket : Ticket) (o : Objective) :
    Beside t (a.opening (.request now (.install ticket o p))).1 (b.opening (.request now (.install ticket o p))).1 ∧
      (b.opening (.request now (.install ticket o p))).2 = (a.opening (.request now (.install ticket o p))).2 := by
  obtain ⟨u, hu, rfl⟩ := h
  rw [opening_install, opening_install, Tracker.ready_registerAll, Tracker.ready_registerAll]
  exact ⟨⟨_, (hu.registerObjective htop _ now).registerAll hwait p.topKey, rfl⟩, rfl⟩

end Controller.Beside

/-! ## Pass-through -/

/-- what a plan creates is among its groups -/
theorem Plan.Creates.mem {p : Plan} {k : Key} (h : p.Creates k) : ∃ d ∈ p.descriptors, d.key = k := by
  rcases h with ⟨d, hd, hk⟩ | ⟨e, he, -, hk⟩
  · exact ⟨d, List.mem_append_left _ hd, hk⟩
  · exact ⟨e.descriptor, List.mem_append_right _ (List.mem_map_of_mem he), hk⟩

/-- how far the plan of `r` has come in `c`, told by a controller that works it off with nothing else in its tracker -/
def Passing (p : Plan) (r : Registrant) (c d : Controller) (ws : List Work) : Prop :=
  ∃ b, Replaying p r { c with tracker := c.tracker.vacant } b ws ∧ Controller.Beside c.tracker b d

namespace Passing

variable {device : DeviceId} {p : Plan} {r : Registrant} {c d : Controller} {w : Work} {ws : List Work}

/-- the plan is registered where nobody waits for its groups -/
theorem opening (hwell : p.WellFormed device) (hrooted : p.Rooted) (hlinked : c.tracker.Linked)
    (hfree : ∀ e ∈ p.descriptors, c.tracker.isPending e.key = false) (now : Nat) (ticket : Ticket) (o : Objective) :
    Passing p ⟨ticket, o, p.record, p.topId⟩ c (c.opening (.request now (.install ticket o p))).1
      (c.opening (.request now (.install ticket o p))).2 := by
  have hkeys : ∀ k, p.Creates k → c.tracker.isPending k = false := by
    intro k hk
    obtain ⟨e, he, rfl⟩ := hk.mem
    exact hfree e he
  have hbeside : Controller.Beside c.tracker { c with tracker := c.tracker.vacant } c :=
    ⟨c.tracker, hlinked.beside_vacant, rfl⟩
  obtain ⟨hstart, hqueue⟩ := hbeside.install (hkeys p.topKey hrooted.root)
    (fun e he k hk => hkeys k (hwell.supplied e he k hk)) now ticket o
  rw [hqueue]
  refine ⟨_, ?_, hstart⟩
  exact .opening hwell hrooted c.tracker.consistent_vacant c.tracker.pendingKeys_vacant now ticket o

theorem process (h : Passing p r c d (w :: ws)) (hp : p.Complete) (hwell : p.WellFormed device)
    (hsettled : ∀ e ∈ p.descriptors, c.Settled e.key)
    (hfree : ∀ e ∈ p.descriptors, c.tracker.isPending e.key = false)
    (haside : c.deferred.get? r.objective.id = none) : Passing p r c (d.process w).1 (ws ++ (d.process w).2) := by
  obtain ⟨b, hb, hd⟩ := h
  have hresolve : ∀ k, w = .resolve k → c.tracker.isPending k = false := by
    intro k hk
    obtain ⟨e, he, hek⟩ : (Work.resolve k).Within p := hk ▸ hb.work w List.mem_cons_self
    exact hek ▸ hfree e he
  -- nobody but the registrant of the plan waits for an objective there
  have hnone : ∀ k rs, b.tracker.objectives.get? k = some rs → ∀ s ∈ rs.list,
      b.deferred.get? s.objective.id = none := by
    intro k rs hrs s hs
    obtain ⟨-, hlist⟩ := hb.alone k rs hrs
    rw [hlist, List.mem_singleton] at hs
    rw [hs, hb.deferred]
    exact haside
  obtain ⟨hprocess, hwork⟩ := hd.process hresolve hnone
  rw [hwork]
  exact ⟨_, hb.process hp hwell hsettled haside, hprocess⟩

/-- in the end the objective is answered and recorded, and all else is as it was -/
theorem finished (h : Passing p r c d []) (hwell : p.WellFormed device) :
    d.replies = c.replies ++ [⟨r.ticket, .installed (((c.group? p.topKey).map (·.id)).getD r.topId)⟩] ∧
      d.store = c.store.put r.record ∧ d.switch = c.switch ∧ d.requested = c.requested ∧ d.deferred = c.deferred ∧
      d.tracker.waiting = c.tracker.waiting ∧ d.tracker.groups = c.tracker.groups ∧
      d.tracker.objectives = c.tracker.objectives := by
  obtain ⟨b, hb, u, hu, rfl⟩ := h
  obtain ⟨hreplies, hstore, hwaiting, hgroups, hobjectives⟩ :=
    hb.finished hwell c.tracker.consistent_vacant c.tracker.pendingKeys_vacant
  refine ⟨hreplies, hstore, hb.switch, hb.requested, hb.deferred, ?_, ?_, ?_⟩
  · calc u.waiting
        = c.tracker.waiting ++ b.tracker.waiting := hu.waiting
      _ = c.tracker.waiting := by
        rw [hwaiting]
        exact List.append_nil _
  · have hside := hu.groups
    rw [hgroups] at hside
    exact hside.eq_of_empty
  · have hside := hu.objectives
    rw [hobjectives] at hside
    exact hside.eq_of_empty

end Passing

/-- **Immediate pass-through.** Take any plan that is made for an objective, and any state of a controller, whatever has
happened to its tracker, in which every group of the plan stands, none is marked as requested and nothing is pending on
any, and in which no bucket of the objective is aside. Then the objective is answered before the handler of its
installation ends, with the id of its top-level group as it is on the device, and its record is stored. The switch is
asked for nothing, and all that waits, all that is marked and all that is aside stays as it was. -/
theorem passes_through_at_once {c : Controller} {delay : Nat} {ops : List Tracker.Op} {device : DeviceId}
    {index : UInt32} {o : Objective} {p : Plan} (hplan : ((Planner.mk device index).build o).1 = .ok p)
    (htracker : c.tracker = (Tracker.fresh delay).run ops) (hsettled : ∀ d ∈ p.descriptors, c.Settled d.key)
    (hfree : ∀ d ∈ p.descriptors, c.tracker.isPending d.key = false) (haside : c.deferred.get? o.id = none)
    (now : Nat) (ticket : Ticket) :
    ∃ top, c.group? p.topKey = some top ∧
      let d := c.handle now (.install ticket o p)
      d.replies = c.replies ++ [⟨ticket, .installed top.id⟩] ∧
        (d.store = c.store.put p.record ∧ d.store.get o.id = .ok (some p.record)) ∧ d.switch = c.switch ∧
        d.requested = c.requested ∧ d.deferred = c.deferred ∧ d.tracker.waiting = c.tracker.waiting ∧
        d.tracker.groups = c.tracker.groups ∧ d.tracker.objectives = c.tracker.objectives := by
  obtain ⟨hwell, hrooted⟩ := Planner.sound_of_build hplan
  obtain ⟨hown, hfits⟩ := Planner.record_of_build hplan
  have hp := Planner.complete_of_build hplan
  have hlinked : c.tracker.Linked := htracker ▸ Tracker.linked_run delay ops
  obtain ⟨e, he, hkey⟩ := hrooted.root.mem
  obtain ⟨top, htop⟩ := Option.isSome_iff_exists.1 (Controller.stands_iff.1 (hsettled e he).1)
  rw [hkey] at htop
  obtain ⟨d, hd, hdrain⟩ := Controller.drain_keeps (P := Passing p ⟨ticket, o, p.record, p.topId⟩ c)
    (fun d w ws hd => hd.process hp hwell hsettled hfree haside)
    (Passing.opening hwell hrooted hlinked hfree now ticket o)
  have hhandle : c.handle now (.install ticket o p) = d.updateGauges := hdrain
  obtain ⟨hreplies, hstore, hrest⟩ := hd.finished hwell
  rw [htop] at hreplies
  refine ⟨top, htop, ?_⟩
  rw [hhandle]
  refine ⟨hreplies, ⟨hstore, ?_⟩, hrest⟩
  calc d.store.get o.id
      = (c.store.put p.record).get o.id := by rw [hstore]
    _ = .ok (some p.record) := by rw [Store.get_put hfits, if_pos hown.symm]

/-- the hashed sample is submitted once more, while elements and an objective of others wait -/
theorem sample_passes_through :
    let c := { (Sample.start.run Sample.hashedInstalled).controller with
      tracker := (Tracker.fresh 1000).run (Sample.history.take 3) }
    let d := c.handle 0 (.install 1 (Sample.hashed ⟨10⟩) (Sample.hashedPlan ⟨10⟩))
    (c.tracker.waiting.length = 2 ∧ c.tracker.hasObjective 7 = true) ∧
      d.replies = c.replies ++ [⟨1, .installed (GroupId.l3Ecmp 4)⟩] ∧ d.switch = c.switch ∧
      d.tracker.waiting = c.tracker.waiting ∧ d.tracker.objectives = c.tracker.objectives := by
  intro c d
  have hplan : ((Planner.mk Sample.device 0).build (Sample.hashed ⟨10⟩)).1 = .ok (Sample.hashedPlan ⟨10⟩) := rfl
  have hsettled : ∀ d ∈ (Sample.hashedPlan ⟨10⟩).descriptors, c.Stands d.key ∧ d.key ∉ c.requested := by
    decide +kernel
  have hfree : ∀ d ∈ (Sample.hashedPlan ⟨10⟩).descriptors, c.tracker.isPending d.key = false := by decide +kernel
  have hgroup : (c.group? (Sample.hashedPlan ⟨10⟩).topKey).map (·.id) = some (GroupId.l3Ecmp 4) := by decide +kernel
  obtain ⟨top, htop, hreplies, -, hswitch, -, -, hwaiting, -, hobjectives⟩ :=
    passes_through_at_once hplan rfl hsettled hfree (by decide +kernel) 0 1
  rw [htop, Option.map_some, Option.some.injEq] at hgroup
  rw [hgroup] at hreplies
  exact ⟨by decide +kernel, hreplies, hswitch, hwaiting, hobjectives⟩

end FlowGroups
