/-
The books of a tracker. Whatever is registered, resolved, expired and taken out, the counts of the elements, the lists
of awaited keys, the registrants and the expiry queue go on saying the same (`WellKept`). Elements are only asked to
name no key twice; one that waits for nothing leaves no trace.

- `Consistent.step_of_nodup`: every operation keeps the counts and the lists in step.
- `Ascending.step`: every operation keeps elements and lists in the order of the ids, so that no id is there twice.
- `books_well_kept`: the tracker's books after any history; objectives and times come from `dated_run`.
-/
import FlowGroups.Proofs.Deadlines

namespace FlowGroups.Tracker

/-- elements and lists are in the order of the ids, so that neither has one twice -/
structure Ascending (t : Tracker) : Prop where
  waiting : t.waiting.Pairwise fun v w => v.id < w.id
  ids : ∀ k ids, t.groups.get? k = some ids → ids.Pairwise (· < ·)

/-- what waits, who waits, and until when: all of it agrees -/
structure WellKept (t : Tracker) : Prop where
  /-- an element misses at least one key, and as many as it is still listed under -/
  counted : ∀ w ∈ t.waiting,
    1 ≤ w.remaining ∧ w.remaining = (w.element.waitOn.filter fun k => w.id ∈ t.awaiting k).length
  /-- a list of ids is not empty, and names elements that wait for its key -/
  listed : ∀ k ids, t.groups.get? k = some ids →
    ids ≠ [] ∧ ∀ id ∈ ids, ∃ w ∈ t.waiting, w.id = id ∧ k ∈ w.element.waitOn
  ascending : t.Ascending
  peopled : ∀ k rs, t.objectives.get? k = some rs → rs.list ≠ []
  /-- ids and generations are taken from counters that are ahead of them -/
  below : (∀ w ∈ t.waiting, w.id < t.nextId) ∧
    (∀ k rs, t.objectives.get? k = some rs → rs.generation < t.nextGeneration) ∧
    ∀ e ∈ t.expiry.entries, e.generation < t.nextGeneration
  /-- the time of whoever waits is noted in the queue -/
  timed : ∀ k rs, t.objectives.get? k = some rs →
    ∃ e ∈ t.expiry.entries, e.key = k ∧ e.generation = rs.generation

/-! ## Counts and lists -/

theorem Consistent.step_of_nodup {t : Tracker} (h : t.Consistent) {op : Op}
    (hop : ∀ e owner, op = .registerElement e owner → e.waitOn.Nodup) : (t.step op).Consistent := by
  by_cases hidle : ∃ e owner, op = .registerElement e owner ∧ e.waitOn = []
  · obtain ⟨e, owner, rfl, he⟩ := hidle
    rw [Tracker.step, registerElement_of_eq owner he]
    exact h
  · exact h.step fun e owner heq => ⟨hop e owner heq, fun he => hidle ⟨e, owner, heq, he⟩⟩

/-! ## The order of ids -/

theorem ascending_fresh (delay : Nat) : (fresh delay).Ascending := ⟨.nil, fun k ids hk => by cases hk⟩

/-- an id that none is above goes to the end of a list, once -/
theorem foldl_await_ascending {id : Nat} (ks : List Key) {g : Registry Key (List Nat)}
    (h : ∀ k ids, g.get? k = some ids → ids.Pairwise (· < ·) ∧ ∀ j ∈ ids, j ≤ id) :
    ∀ k ids, (ks.foldl (await id) g).get? k = some ids → ids.Pairwise (· < ·) ∧ ∀ j ∈ ids, j ≤ id := by
  induction ks generalizing g with
  | nil => exact h
  | cons i ks ih =>
    refine ih fun k ids hk => ?_
    have hold : ((g.get? i).getD []).Pairwise (· < ·) ∧ ∀ j ∈ (g.get? i).getD [], j ≤ id := by
      cases hi : g.get? i with
      | none => exact ⟨.nil, fun j hj => absurd hj List.not_mem_nil⟩
      | some is => exact h i is hi
    simp only [await, Registry.get?_insert] at hk
    split_ifs at hk with hki hid
    · cases hk
      exact hold
    · cases hk
      have hlt : ∀ j ∈ (g.get? i).getD [], j < id := fun j hj =>
        Nat.lt_of_le_of_ne (hold.2 j hj) fun heq => hid (heq ▸ hj)
      constructor
      · refine List.pairwise_append.2 ⟨hold.1, List.pairwise_singleton _ _, fun j hj l hl => ?_⟩
        rw [List.mem_singleton.1 hl]
        exact hlt j hj
      · intro j hj
        rcases List.mem_append.1 hj with hj | hj
        · exact hold.2 j hj
        · exact Nat.le_of_eq (List.mem_singleton.1 hj)
    · exact h k ids hk

namespace Ascending

variable {t : Tracker}

/-- objectives and times play no part -/
theorem congr {s : Tracker} (h : t.Ascending) (hw : s.waiting = t.waiting) (hg : s.groups = t.groups) : s.Ascending :=
  ⟨hw ▸ h.waiting, hg ▸ h.ids⟩

theorem enlist (h : t.Ascending) (hl : t.Linked) (e : Element) (owner : Key) : (t.enlist e owner).Ascending := by
  constructor
  · refine List.pairwise_append.2 ⟨h.waiting, List.pairwise_singleton _ _, fun v hv w hw => ?_⟩
    rw [List.mem_singleton.1 hw]
    exact hl.below v hv
  · intro k ids hk
    refine (foldl_await_ascending e.waitOn (fun j is hj => ⟨h.ids j is hj, fun i hi => ?_⟩) k ids hk).1
    have hi' : i ∈ t.awaiting j := by
      rw [awaiting, hj]
      exact hi
    obtain ⟨w, hw, rfl, -⟩ := hl.listed j i hi'
    exact Nat.le_of_lt (hl.below w hw)

theorem advance (h : t.Ascending) (k : Key) (ids : List Nat) : (t.advance k ids).Ascending := by
  constructor
  · refine List.Pairwise.filter _ (List.pairwise_map.2 (h.waiting.imp fun hvw => ?_))
    simpa only [id_countDown] using hvw
  · intro j is hj
    exact h.ids j is (Registry.of_get?_erase hj).2

theorem purge (h : t.Ascending) (owner : Key) : (t.purge owner).Ascending := by
  refine ⟨h.waiting.filter _, fun k ids hk => ?_⟩
  simp only [Tracker.purge, Registry.get?_filterMap, Option.bind_eq_some_iff, strike] at hk
  obtain ⟨old, hold, hk⟩ := hk
  split_ifs at hk
  cases hk
  exact (h.ids k old hold).filter _

theorem drop (h : t.Ascending) (k : Key) : ((t.discharge k).purge k).Ascending := by
  have hd : (t.discharge k).Ascending := h.congr rfl rfl
  exact hd.purge k

theorem step (h : t.Ascending) (hl : t.Linked) (op : Op) : (t.step op).Ascending := by
  cases op with
  | registerElement e owner => exact registerElement_keeps (fun _ => h.enlist hl e owner) h
  | registerObjective k r now => exact h.congr rfl rfl
  | resolve k => exact resolve_keeps (fun ids _ => h.advance k ids) (h.congr rfl rfl) h
  | expire now => exact expire_keeps (fun _ k hs => hs.drop k) (fun _ _ hs => hs.congr rfl rfl) h now
  | takeObjective n =>
    exact takeObjective_keeps (fun _ k hs => hs.drop k) (fun _ _ _ _ _ _ _ hs => hs.congr rfl rfl) h n

end Ascending

/-! ## Any history -/

section

variable {delay : Nat} {ops : List Op}

theorem consistent_run_of_nodup (hops : ∀ e owner, .registerElement e owner ∈ ops → e.waitOn.Nodup) :
    ((fresh delay).run ops).Consistent := by
  induction ops using List.reverseRecOn with
  | nil => exact consistent_fresh delay
  | append_singleton ops op ih =>
    rw [run_snoc]
    refine (ih fun e owner he => hops e owner (List.mem_append_left _ he)).step_of_nodup fun e owner heq => ?_
    exact hops e owner (List.mem_append_right _ (List.mem_singleton.2 heq.symm))

theorem ascending_run (delay : Nat) (ops : List Op) : ((fresh delay).run ops).Ascending := by
  induction ops using List.reverseRecOn with
  | nil => exact ascending_fresh delay
  | append_singleton ops op ih =>
    rw [run_snoc]
    exact ih.step (linked_run delay ops) op

/-- **The books of a tracker agree.** After any history of a tracker in which no element names a key twice: every
element that waits misses at least one key, and its count is the number of its keys it is listed under; every list of
ids has some, and names elements that wait for its key; nobody is registered under a key without registrants; ids and
generations lie below their counters; and for the generation of every registration the queue has an entry of its key. -/
theorem books_well_kept (hops : ∀ e owner, .registerElement e owner ∈ ops → e.waitOn.Nodup) :
    ((fresh delay).run ops).WellKept := by
  have hc : ((fresh delay).run ops).Consistent := consistent_run_of_nodup hops
  have hd := dated_run delay ops
  have htimed : ∀ k rs, ((fresh delay).run ops).objectives.get? k = some rs →
      ∃ e ∈ ((fresh delay).run ops).expiry.entries, e.key = k ∧ e.generation = rs.generation := by
    intro k rs hk
    obtain ⟨-, i, time, -, hgen, hentry⟩ := hd.kept k rs hk
    exact ⟨_, hentry, rfl, hgen.symm⟩
  refine ⟨fun w hw => ⟨hc.missing w hw, hc.counted w hw⟩, fun k ids hk => ⟨hc.awaited k ids hk, fun id hid => ?_⟩,
    ascending_run delay ops, fun k rs hk => (hd.kept k rs hk).1,
    ⟨hc.below, fun k rs hk => ?_, fun e => hd.past⟩, htimed⟩
  · have hid' : id ∈ ((fresh delay).run ops).awaiting k := by
      rw [awaiting, hk]
      exact hid
    exact hc.listed k id hid'
  · obtain ⟨e, he, -, hgen⟩ := htimed k rs hk
    exact hgen ▸ hd.past he

end

/-- two elements share a key, a third waits for nothing, one owner is given up and one key is resolved -/
def wornSample : List Op :=
  let element (k : Nat) (waitOn : List Nat) : Element :=
    ⟨⟨⟨"of:1"⟩, .indirect, [], ⟨[k.toUInt8]⟩, ⟨0⟩, ⟨"sample"⟩⟩, waitOn.map fun j => ⟨[j.toUInt8]⟩, false⟩
  let registrant (n : UInt32) : Registrant := ⟨0, ⟨n, .simple, [], ⟨"sample"⟩, none⟩, ⟨n, []⟩, ⟨11⟩⟩
  [.registerElement (element 4 [1, 2, 3]) ⟨[9]⟩, .registerElement (element 5 []) ⟨[9]⟩,
    .registerElement (element 6 [2, 3]) ⟨[8]⟩, .registerObjective ⟨[8]⟩ (registrant 7) 0,
    .registerObjective ⟨[9]⟩ (registrant 8) 5, .registerObjective ⟨[9]⟩ (registrant 7) 6, .resolve ⟨[2]⟩,
    .expire 12, .takeObjective 8]

theorem books_of_sample_well_kept :
    (∀ e owner, .registerElement e owner ∈ wornSample → e.waitOn.Nodup) ∧ ((fresh 10).run wornSample).WellKept ∧
      ((fresh 10).run wornSample).waiting.map (fun w => (w.id, w.remaining)) = [(0, 2)] ∧
      ((fresh 10).run wornSample).objectives.keys = [⟨[9]⟩] := by
  have hops : ∀ e owner, .registerElement e owner ∈ wornSample → e.waitOn.Nodup := by
    intro e owner he
    simp only [wornSample, List.mem_cons, Op.registerElement.injEq, reduceCtorEq, List.not_mem_nil, or_false] at he
    rcases he with ⟨rfl, -⟩ | ⟨rfl, -⟩ | ⟨rfl, -⟩ <;> decide
  exact ⟨hops, books_well_kept hops, by decide, by decide⟩

end FlowGroups.Tracker
