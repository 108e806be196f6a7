/-
Deadlines. The expiry queue is in order of time, and an objective has its entry there for as long as it waits (`Timed`),
so that nobody waits past a deadline unnoticed. An entry that was overtaken by a later registration, or whose objective
is gone, ends nothing.

- `popEntries_eq`: the entries whose time has come are taken, and no others.
- `expire_eq`: what an expiry looks at, and what it leaves in the queue.
- `expireEntries_leaves`: expired entries end the objectives that are still of their generation, with the elements under
  their keys.
- `outlives_expire`, `outlives_takeObjective`: whoever goes on waiting keeps the generation and its entry.
- `Timed.registerObjective`, `Timed.expire`, `Timed.takeObjective`: every operation keeps the entries.
-/
import FlowGroups.Proofs.Tracker

namespace FlowGroups

namespace Tracker

/-- the queue is in order of time, and every objective that waits has its entry there -/
structure Timed (t : Tracker) : Prop where
  ordered : t.expiry.entries.Pairwise fun e f => e.deadline ≤ f.deadline
  past : ∀ e ∈ t.expiry.entries, e.generation < t.nextGeneration
  scheduled : ∀ k rs, t.objectives.get? k = some rs → ∃ e ∈ t.expiry.entries, e.key = k ∧ e.generation = rs.generation

theorem timed_fresh (delay : Nat) : (fresh delay).Timed :=
  ⟨List.Pairwise.nil, fun _ he => (List.not_mem_nil he).elim, fun k rs hk => by cases hk⟩

end Tracker

/-! ## Queues in order -/

namespace ExpiryQueue

/-- in a queue that is in order, an entry of a later generation goes behind all that are due by its deadline -/
theorem place_eq {e : Expiry Key} {es : List (Expiry Key)} (ho : es.Pairwise fun e f => e.deadline ≤ f.deadline)
    (hg : ∀ f ∈ es, f.generation < e.generation) :
    place e es = es.filter (fun f => f.deadline ≤ e.deadline) ++ e :: es.filter fun f => e.deadline < f.deadline := by
  induction es with
  | nil => rfl
  | cons f fs ih =>
    obtain ⟨hf, hfs⟩ := List.pairwise_cons.1 ho
    have hgf := hg f List.mem_cons_self
    have hbefore : f.before e = decide (f.deadline ≤ e.deadline) := by
      rw [Bool.eq_iff_iff]
      simp only [Expiry.before, Bool.or_eq_true, Bool.and_eq_true, decide_eq_true_eq, beq_iff_eq, hgf, true_or,
        and_true]
      omega
    by_cases hle : f.deadline ≤ e.deadline
    · have htail := ih hfs fun g hg' => hg g (List.mem_cons_of_mem f hg')
      simp [place, hbefore, hle, htail, Nat.not_lt.2 hle]
    · -- everything behind the first entry that is due later is due later too
      have hlater : ∀ g ∈ fs, e.deadline < g.deadline := fun g hg' => by
        have := hf g hg'
        omega
      have hnone : fs.filter (fun g => decide (g.deadline ≤ e.deadline)) = [] := by
        simpa using hlater
      have hall : fs.filter (fun g => decide (e.deadline < g.deadline)) = fs := by
        simpa using hlater
      simp [place, hbefore, hle, hnone, hall, Nat.lt_of_not_le hle]

theorem mem_place {e f : Expiry Key} {es : List (Expiry Key)} : f ∈ place e es ↔ f = e ∨ f ∈ es := by
  induction es with
  | nil => simp [place]
  | cons g gs ih =>
    rw [place]
    split_ifs
    · rw [List.mem_cons, ih, List.mem_cons, or_left_comm]
    · exact List.mem_cons

/-- an order that follows the deadlines is kept, if among entries of one deadline the new one comes last -/
theorem pairwise_place {R : Expiry Key → Expiry Key → Prop} {e : Expiry Key} {es : List (Expiry Key)}
    (hR : ∀ f g, f.deadline < g.deadline → R f g) (hes : es.Pairwise R)
    (ho : es.Pairwise fun e f => e.deadline ≤ f.deadline) (hg : ∀ f ∈ es, f.generation < e.generation)
    (he : ∀ f ∈ es, f.deadline = e.deadline → R f e) : (place e es).Pairwise R := by
  have hbehind : ∀ g ∈ es.filter fun f => e.deadline < f.deadline, e.deadline < g.deadline := by
    intro g hg
    simpa using (List.mem_filter.1 hg).2
  rw [place_eq ho hg, List.pairwise_append, List.pairwise_cons]
  refine ⟨hes.filter _, ⟨fun g hg => hR e g (hbehind g hg), hes.filter _⟩, fun f hf g hg => ?_⟩
  obtain ⟨hmem, hle⟩ := List.mem_filter.1 hf
  have hfe : f.deadline ≤ e.deadline := by simpa using hle
  rcases List.mem_cons.1 hg with rfl | hg
  · rcases Nat.lt_or_eq_of_le hfe with hlt | heq
    · exact hR f g hlt
    · exact he f hmem heq
  · apply hR
    exact Nat.lt_of_le_of_lt hfe (hbehind g hg)

/-- in a queue that is in order, the entries whose time has come are all taken -/
theorem popEntries_eq {κ : Type} {now : Nat} {es : List (Expiry κ)}
    (ho : es.Pairwise fun e f => e.deadline ≤ f.deadline) :
    popEntries now es = (es.filter (fun e => e.deadline ≤ now), es.filter fun e => now < e.deadline) := by
  induction es with
  | nil => rfl
  | cons e es ih =>
    obtain ⟨he, hes⟩ := List.pairwise_cons.1 ho
    by_cases hle : e.deadline ≤ now
    · simp [popEntries, hle, ih hes, Nat.not_lt.2 hle]
    · have hlater : ∀ f ∈ es, now < f.deadline := fun f hf => by
        have := he f hf
        omega
      have hnone : es.filter (fun f => decide (f.deadline ≤ now)) = [] := by
        simpa using hlater
      have hall : es.filter (fun f => decide (now < f.deadline)) = es := by
        simpa using hlater
      simp [popEntries, hle, hnone, hall, Nat.lt_of_not_le hle]

end ExpiryQueue

namespace Tracker

/-! ## What some expired entries end -/

/-- is the objective under the key of an entry still of the generation of the entry? -/
def Ends (t : Tracker) (e : Expiry Key) : Prop :=
  ∃ rs, t.objectives.get? e.key = some rs ∧ rs.generation = e.generation

/-- do some entries end the objective under a key? -/
def Overdue (t : Tracker) (es : List (Expiry Key)) (k : Key) : Prop := ∃ e ∈ es, e.key = k ∧ t.Ends e

theorem expireEntry_of_ends {t : Tracker} {e : Expiry Key} (h : t.Ends e) :
    (t.expireEntry e).1 = (t.discharge e.key).purge e.key := by
  obtain ⟨rs, hk, hg⟩ := h
  simp only [expireEntry, hk, if_pos hg]
  rfl

theorem expireEntry_of_not_ends {t : Tracker} {e : Expiry Key} (h : ¬t.Ends e) : t.expireEntry e = (t, none) := by
  unfold expireEntry
  split
  · rename_i rs hk
    exact if_neg fun hg => h ⟨rs, hk, hg⟩
  · rfl

theorem objectives_drop {t : Tracker} {j k : Key} {rs : Registrants} :
    ((t.discharge j).purge j).objectives.get? k = some rs ↔ k ≠ j ∧ t.objectives.get? k = some rs := by
  simp only [purge, discharge, Registry.get?_erase]
  split_ifs with hk <;> simp [hk]

theorem overdue_drop {t : Tracker} {es : List (Expiry Key)} {j k : Key} :
    ((t.discharge j).purge j).Overdue es k ↔ k ≠ j ∧ t.Overdue es k := by
  simp only [Overdue, Ends, objectives_drop]
  constructor
  · rintro ⟨e, he, rfl, rs, ⟨hne, hk⟩, hg⟩
    exact ⟨hne, e, he, rfl, rs, hk, hg⟩
  · rintro ⟨hne, e, he, rfl, rs, hk, hg⟩
    exact ⟨e, he, rfl, rs, ⟨hne, hk⟩, hg⟩

theorem overdue_cons {t : Tracker} {e : Expiry Key} {es : List (Expiry Key)} {k : Key} :
    t.Overdue (e :: es) k ↔ (e.key = k ∧ t.Ends e) ∨ t.Overdue es k := by
  simp [Overdue]

/-- the objectives that are not overdue go on waiting, and so do the elements under their keys -/
theorem expireEntries_leaves (es : List (Expiry Key)) (t : Tracker) :
    (∀ k rs, (t.expireEntries es).1.objectives.get? k = some rs ↔
        t.objectives.get? k = some rs ∧ ¬t.Overdue es k) ∧
      ∀ w, w ∈ (t.expireEntries es).1.waiting ↔ w ∈ t.waiting ∧ ¬t.Overdue es w.owner := by
  induction es generalizing t with
  | nil => simp [expireEntries, Overdue]
  | cons e es ih =>
    obtain ⟨hobjectives, hwaiting⟩ := ih (t.expireEntry e).1
    simp only [expireEntries, hobjectives, hwaiting, overdue_cons]
    by_cases he : t.Ends e
    · simp only [expireEntry_of_ends he, overdue_drop, objectives_drop, mem_waiting_purge, he, and_true]
      constructor
      · intro k rs
        rw [eq_comm (a := e.key)]
        tauto
      · intro w
        rw [eq_comm (a := e.key)]
        simp only [discharge]
        tauto
    · simp [expireEntry_of_not_ends he, he]

/-! ## What goes on waiting -/

/-- in a queue that is in order, the entries that are due are all looked at, and the others stay -/
theorem expire_eq {t : Tracker} (ho : t.expiry.entries.Pairwise fun e f => e.deadline ≤ f.deadline) (now : Nat) :
    t.expire now = ({ t with expiry := ⟨t.expiry.entries.filter fun e => now < e.deadline⟩ } : Tracker).expireEntries
      (t.expiry.entries.filter fun e => e.deadline ≤ now) := by
  simp only [expire, ExpiryQueue.popExpired, ExpiryQueue.popEntries_eq ho]

theorem times_expireEntries (es : List (Expiry Key)) (t : Tracker) :
    (t.expireEntries es).1.expiry = t.expiry ∧ (t.expireEntries es).1.nextGeneration = t.nextGeneration := by
  induction es generalizing t with
  | nil => exact ⟨rfl, rfl⟩
  | cons e es ih =>
    have hone : (t.expireEntry e).1.expiry = t.expiry ∧ (t.expireEntry e).1.nextGeneration = t.nextGeneration := by
      rcases expireEntry_cases t e with ⟨rs, -, he⟩ | he <;> rw [he] <;> exact ⟨rfl, rfl⟩
    exact ⟨(ih _).1.trans hone.1, (ih _).2.trans hone.2⟩

/-- the entries that are not due yet are left -/
theorem times_expire {t : Tracker} (ho : t.expiry.entries.Pairwise fun e f => e.deadline ≤ f.deadline) (now : Nat) :
    (t.expire now).1.expiry.entries = t.expiry.entries.filter (fun e => now < e.deadline) ∧
      (t.expire now).1.nextGeneration = t.nextGeneration := by
  rw [expire_eq ho]
  obtain ⟨hq, hg⟩ := times_expireEntries (t.expiry.entries.filter fun e => e.deadline ≤ now)
    { t with expiry := ⟨t.expiry.entries.filter fun e => now < e.deadline⟩ }
  exact ⟨congrArg (·.entries) hq, hg⟩

/-- an objective that outlives an expiry has its entry among those that are not due yet -/
theorem outlives_expire {t : Tracker} (ho : t.expiry.entries.Pairwise fun e f => e.deadline ≤ f.deadline) {now : Nat}
    {k : Key} {rs : Registrants} (hk : (t.expire now).1.objectives.get? k = some rs) :
    t.objectives.get? k = some rs ∧ ∀ e ∈ t.expiry.entries, e.key = k → e.generation = rs.generation →
      e ∈ (t.expire now).1.expiry.entries := by
  have hleaves := expireEntries_leaves (t.expiry.entries.filter fun e => e.deadline ≤ now)
    { t with expiry := ⟨t.expiry.entries.filter fun e => now < e.deadline⟩ }
  rw [← expire_eq ho] at hleaves
  obtain ⟨hold, hnot⟩ := (hleaves.1 k rs).1 hk
  refine ⟨hold, fun e he hkey hgen => ?_⟩
  have hlater : now < e.deadline := by
    by_contra hle
    exact hnot ⟨e, List.mem_filter.2 ⟨he, by simpa using hle⟩, hkey, rs, hkey ▸ hold, hgen.symm⟩
  rw [(times_expire ho now).1]
  exact List.mem_filter.2 ⟨he, by simpa using hlater⟩

/-- what is left under a key when an objective is taken out is of the generation it was, and somebody is left -/
theorem outlives_takeObjective (t : Tracker) (n : UInt32) :
    ((t.takeObjective n).1.expiry = t.expiry ∧ (t.takeObjective n).1.nextGeneration = t.nextGeneration ∧
      (t.takeObjective n).1.delay = t.delay) ∧
      ∀ k rs, (t.takeObjective n).1.objectives.get? k = some rs →
        ∃ old, t.objectives.get? k = some old ∧ old.generation = rs.generation ∧ (old.list ≠ [] → rs.list ≠ []) := by
  let Kept (s : Tracker) : Prop :=
    (s.expiry = t.expiry ∧ s.nextGeneration = t.nextGeneration ∧ s.delay = t.delay) ∧
      ∀ k rs, s.objectives.get? k = some rs →
        ∃ old, t.objectives.get? k = some old ∧ old.generation = rs.generation ∧ (old.list ≠ [] → rs.list ≠ [])
  refine takeObjective_keeps (P := Kept) (fun s k hs => ?_) (fun s k rs left hk _ hleft hs => ?_) ?_ n
  · exact ⟨hs.1, fun j rs hj => hs.2 j rs (Registry.of_get?_erase hj).2⟩
  · refine ⟨hs.1, fun j ss hj => ?_⟩
    simp only [retain, Registry.get?_insert] at hj
    split_ifs at hj with hjk
    · cases hj
      obtain ⟨old, hold, hgen, -⟩ := hs.2 k rs hk
      exact ⟨old, hjk ▸ hold, hgen, fun _ => hleft⟩
    · exact hs.2 j ss hj
  · exact ⟨⟨rfl, rfl, rfl⟩, fun k rs hk => ⟨rs, hk, rfl, id⟩⟩

theorem times_registerAll (t : Tracker) (owner : Key) (es : List Element) :
    (t.registerAll owner es).1.expiry = t.expiry ∧
      (t.registerAll owner es).1.nextGeneration = t.nextGeneration :=
  registerAll_keeps (P := fun s => s.expiry = t.expiry ∧ s.nextGeneration = t.nextGeneration) (fun _ _ _ _ hs => hs)
    ⟨rfl, rfl⟩

/-! ## Every operation keeps the entries -/

namespace Timed

variable {t s : Tracker}

/-- fewer objectives, with the generations they had -/
theorem shrink (h : t.Timed) (hq : s.expiry = t.expiry) (hg : s.nextGeneration = t.nextGeneration)
    (ho : ∀ k rs, s.objectives.get? k = some rs →
      ∃ old, t.objectives.get? k = some old ∧ old.generation = rs.generation) : s.Timed := by
  refine ⟨hq ▸ h.ordered, hq ▸ hg ▸ h.past, fun k rs hk => ?_⟩
  obtain ⟨old, hold, hgen⟩ := ho k rs hk
  rw [hq, ← hgen]
  exact h.scheduled k old hold

theorem registerObjective (h : t.Timed) (k : Key) (r : Registrant) (now : Nat) :
    (t.registerObjective k r now).Timed := by
  let e : Expiry Key := ⟨now + t.delay, t.nextGeneration, k⟩
  have hmem : ∀ f, f ∈ (t.registerObjective k r now).expiry.entries ↔ f = e ∨ f ∈ t.expiry.entries := fun f =>
    ExpiryQueue.mem_place
  refine ⟨?_, fun f hf => ?_, fun j rs hj => ?_⟩
  · exact ExpiryQueue.pairwise_place (fun _ _ => Nat.le_of_lt) h.ordered h.ordered h.past fun _ _ => Nat.le_of_eq
  · change f.generation < t.nextGeneration + 1
    rcases (hmem f).1 hf with rfl | hf
    · exact Nat.lt_succ_self _
    · exact Nat.lt_succ_of_lt (h.past f hf)
  · simp only [Tracker.registerObjective, Registry.get?_insert] at hj
    split_ifs at hj with hjk
    · cases hj
      exact ⟨e, (hmem e).2 (Or.inl rfl), hjk.symm, rfl⟩
    · obtain ⟨f, hf, hkey⟩ := h.scheduled j rs hj
      exact ⟨f, (hmem f).2 (Or.inr hf), hkey⟩

theorem expire (h : t.Timed) (now : Nat) : (t.expire now).1.Timed := by
  obtain ⟨hq, hg⟩ := times_expire h.ordered now
  refine ⟨?_, ?_, fun k rs hk => ?_⟩
  · rw [hq]
    exact h.ordered.filter _
  · rw [hq, hg]
    exact fun e he => h.past e (List.mem_of_mem_filter he)
  · obtain ⟨hold, hstay⟩ := outlives_expire h.ordered hk
    obtain ⟨e, he, hkey, hgen⟩ := h.scheduled k rs hold
    exact ⟨e, hstay e he hkey hgen, hkey, hgen⟩

theorem takeObjective (h : t.Timed) (n : UInt32) : (t.takeObjective n).1.Timed := by
  obtain ⟨⟨hq, hg, -⟩, ho⟩ := t.outlives_takeObjective n
  refine h.shrink hq hg fun k rs hk => ?_
  obtain ⟨old, hold, hgen, -⟩ := ho k rs hk
  exact ⟨old, hold, hgen⟩

end Timed

/-- once all deadlines are there, nobody waits any more, and only elements that nobody waited for are left -/
theorem Timed.expire_all {t : Tracker} (h : t.Timed) {now : Nat} (hdue : ∀ e ∈ t.expiry.entries, e.deadline ≤ now) :
    (t.expire now).1.objectives = .empty ∧
      ∀ w, w ∈ (t.expire now).1.waiting ↔ w ∈ t.waiting ∧ t.objectives.get? w.owner = none := by
  have hexpire : t.expire now = ({ t with expiry := ⟨[]⟩ } : Tracker).expireEntries t.expiry.entries := by
    have hall : t.expiry.entries.filter (fun e => e.deadline ≤ now) = t.expiry.entries := by
      simpa using hdue
    have hnone : t.expiry.entries.filter (fun e => now < e.deadline) = [] := by
      simpa using hdue
    rw [expire_eq h.ordered, hall, hnone]
  obtain ⟨hobjectives, hwaiting⟩ := expireEntries_leaves t.expiry.entries { t with expiry := ⟨[]⟩ }
  have hoverdue : ∀ k, ({ t with expiry := ⟨[]⟩ } : Tracker).Overdue t.expiry.entries k ↔
      ∃ rs, t.objectives.get? k = some rs := by
    intro k
    constructor
    · rintro ⟨e, -, rfl, rs, hk, -⟩
      exact ⟨rs, hk⟩
    · rintro ⟨rs, hk⟩
      obtain ⟨e, he, hkey, hgen⟩ := h.scheduled k rs hk
      exact ⟨e, he, hkey, rs, hkey ▸ hk, hgen.symm⟩
  rw [hexpire]
  refine ⟨Registry.eq_empty fun k => ?_, fun w => ?_⟩
  · rw [Option.eq_none_iff_forall_ne_some]
    intro rs hrs
    obtain ⟨hk, hnot⟩ := (hobjectives k rs).1 hrs
    exact hnot ((hoverdue k).2 ⟨rs, hk⟩)
  · rw [hwaiting, hoverdue, ← Option.isSome_iff_exists, Option.not_isSome_iff_eq_none]

end Tracker

end FlowGroups
