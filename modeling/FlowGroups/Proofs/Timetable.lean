/-
The expiry queue as a timetable: whatever is scheduled and popped, it holds the entries that were scheduled and have
not been popped, as often as they were scheduled, in the order of the triples of deadline, generation and key
(`Expiry.Precedes`). Any keys will do that are in total order.

- `place_perm`, `place_ordered`: a new entry goes to its place, and nothing is lost or repeated.
- `Holds.schedule`, `Holds.popExpired`, `holds_run`: so it is in every history, and what a pop takes out is gone.
- `pops_due_in_order`: what a pop returns and what it keeps, and the next deadline.
-/
import FlowGroups.Proofs.Parts

namespace FlowGroups

/-! ## The order of entries -/

namespace Expiry

variable {κ : Type} [LT κ] {e f g : Expiry κ}

/-- the order of triples: by deadline, at one deadline by generation, at one generation by key -/
def Precedes (e f : Expiry κ) : Prop :=
  Prod.Lex (· < ·) (Prod.Lex (· < ·) (· < ·)) (e.deadline, e.generation, e.key) (f.deadline, f.generation, f.key)

/-- the entry is the other one, or precedes it -/
def NotAfter (e f : Expiry κ) : Prop := e = f ∨ e.Precedes f

theorem before_iff [DecidableLT κ] : e.before f = true ↔ e.Precedes f := by
  simp only [before, Precedes, Prod.lex_iff, Bool.or_eq_true, Bool.and_eq_true, decide_eq_true_eq, beq_iff_eq]

theorem NotAfter.deadline_le (h : e.NotAfter f) : e.deadline ≤ f.deadline := by
  rcases h with rfl | h
  · exact Nat.le_refl _
  · rcases Prod.lex_iff.1 h with hlt | ⟨heq, -⟩
    · exact Nat.le_of_lt hlt
    · exact Nat.le_of_eq heq

variable [IsStrictTotalOrder κ (· < ·)]

theorem Precedes.trans (hef : e.Precedes f) (hfg : f.Precedes g) : e.Precedes g := Prod.Lex.trans hef hfg

theorem NotAfter.trans (hef : e.NotAfter f) (hfg : f.NotAfter g) : e.NotAfter g := by
  rcases hef with rfl | hef
  · exact hfg
  · rcases hfg with rfl | hfg
    · exact .inr hef
    · exact .inr (hef.trans hfg)

/-- of two entries the one that does not precede the other is not before it -/
theorem notAfter_of_not_precedes (h : ¬f.Precedes e) : e.NotAfter f := by
  obtain ⟨d, m, j⟩ := e
  obtain ⟨d', n, k⟩ := f
  simp only [Precedes, Prod.lex_iff, not_or, not_and] at h
  obtain ⟨hd, h⟩ := h
  rcases Nat.lt_or_eq_of_le (Nat.not_lt.1 hd) with hlt | rfl
  · exact .inr (.left _ _ hlt)
  obtain ⟨hm, h⟩ := h rfl
  rcases Nat.lt_or_eq_of_le (Nat.not_lt.1 hm) with hlt | rfl
  · exact .inr (.right _ (.left _ _ hlt))
  rcases trichotomous_of (· < ·) j k with hlt | rfl | hlt
  · exact .inr (.right _ (.right _ hlt))
  · exact .inl rfl
  · exact absurd hlt (h rfl)

end Expiry

namespace ExpiryQueue

variable {κ : Type}

/-! ## Histories -/

inductive Op (κ : Type)
  | schedule (deadline generation : Nat) (key : κ)
  | popExpired (now : Nat)
deriving DecidableEq

/-- does the operation pop the entries of this deadline? -/
def Op.isDue (deadline : Nat) : Op κ → Bool
  | .schedule .. => false
  | .popExpired now => deadline ≤ now

/-- the entry that an operation schedules -/
def Op.entry? : Op κ → Option (Expiry κ)
  | .schedule deadline generation key => some ⟨deadline, generation, key⟩
  | .popExpired _ => none

/-- the entries that a history schedules -/
def scheduled (ops : List (Op κ)) : List (Expiry κ) := ops.filterMap Op.entry?

/-- the entries of a history that no later pop of it was late enough for -/
def outstanding : List (Op κ) → List (Expiry κ)
  | [] => []
  | .schedule deadline generation key :: later =>
    if later.any (Op.isDue deadline) then outstanding later
    else ⟨deadline, generation, key⟩ :: outstanding later
  | .popExpired _ :: later => outstanding later

theorem outstanding_snoc_schedule (ops : List (Op κ)) (deadline generation : Nat) (key : κ) :
    outstanding (ops ++ [.schedule deadline generation key]) = outstanding ops ++ [⟨deadline, generation, key⟩] := by
  induction ops with
  | nil => rfl
  | cons op ops ih =>
    cases op with
    | schedule d g k =>
      simp only [List.cons_append, outstanding, ih, List.any_append, List.any_cons, List.any_nil, Op.isDue,
        Bool.or_false]
      split_ifs <;> rfl
    | popExpired now => exact ih

theorem outstanding_snoc_popExpired (ops : List (Op κ)) (now : Nat) :
    outstanding (ops ++ [.popExpired now]) = (outstanding ops).filter fun e => now < e.deadline := by
  induction ops with
  | nil => rfl
  | cons op ops ih =>
    cases op with
    | schedule d g k =>
      simp only [List.cons_append, outstanding, ih, List.any_append, List.any_cons, List.any_nil, Op.isDue,
        Bool.or_false]
      -- the new pop makes a difference only to an entry that no earlier one was late enough for
      by_cases hdue : ops.any (Op.isDue d) = true
      · simp [hdue]
      · by_cases hle : d ≤ now
        · simp [hdue, hle, Nat.not_lt.2 hle]
        · simp [hdue, hle, Nat.lt_of_not_le hle]
    | popExpired now' => exact ih

/-! ## What a queue holds -/

variable [LT κ] {q : ExpiryQueue κ} {e : Expiry κ} {es : List (Expiry κ)}

/-- the queue holds these entries, as often as they are listed, and holds them in order -/
structure Holds (q : ExpiryQueue κ) (es : List (Expiry κ)) : Prop where
  ordered : q.entries.Pairwise Expiry.NotAfter
  same : q.entries.Perm es

namespace Holds

theorem popExpired_eq (h : q.Holds es) (now : Nat) : q.popExpired now =
    (q.entries.filter (fun e => e.deadline ≤ now), ⟨q.entries.filter fun e => now < e.deadline⟩) := by
  rw [popExpired, popEntries_eq (h.ordered.imp Expiry.NotAfter.deadline_le)]

/-- a pop keeps the entries that are due later -/
theorem popExpired (h : q.Holds es) (now : Nat) :
    (q.popExpired now).2.Holds (es.filter fun e => now < e.deadline) := by
  rw [h.popExpired_eq]
  exact ⟨h.ordered.filter _, h.same.filter _⟩

/-- the first entry has the least deadline -/
theorem nextDeadline?_eq (h : q.Holds es) : q.nextDeadline? = (es.map (·.deadline)).min? := by
  obtain ⟨ho, hsame⟩ := h
  rw [nextDeadline?]
  cases hq : q.entries with
  | nil =>
    rw [hq, List.nil_perm] at hsame
    rw [hsame]
    rfl
  | cons f fs =>
    rw [hq] at ho hsame
    symm
    rw [List.head?_cons, Option.map_some, List.min?_eq_some_iff]
    refine ⟨List.mem_map_of_mem (hsame.mem_iff.1 List.mem_cons_self), fun d hd => ?_⟩
    obtain ⟨g, hg, rfl⟩ := List.mem_map.1 hd
    rcases List.mem_cons.1 (hsame.mem_iff.2 hg) with rfl | hg
    · exact Nat.le_refl _
    · exact ((List.pairwise_cons.1 ho).1 g hg).deadline_le

end Holds

/-! ## A new entry -/

variable [DecidableLT κ]

theorem place_perm (e : Expiry κ) (es : List (Expiry κ)) : (place e es).Perm (e :: es) := by
  induction es with
  | nil => exact .refl _
  | cons f fs ih =>
    rw [place]
    split_ifs
    · exact (ih.cons f).trans (.swap e f fs)
    · exact .refl _

theorem place_ordered [IsStrictTotalOrder κ (· < ·)] (h : es.Pairwise Expiry.NotAfter) (e : Expiry κ) :
    (place e es).Pairwise Expiry.NotAfter := by
  induction es with
  | nil => exact List.pairwise_singleton _ _
  | cons f fs ih =>
    obtain ⟨hf, hfs⟩ := List.pairwise_cons.1 h
    rw [place]
    split_ifs with hfe
    · refine List.pairwise_cons.2 ⟨fun g hg => ?_, ih hfs⟩
      rcases List.mem_cons.1 ((place_perm e fs).mem_iff.1 hg) with rfl | hg
      · exact .inr (Expiry.before_iff.1 hfe)
      · exact hf g hg
    · have hef : e.NotAfter f := Expiry.notAfter_of_not_precedes fun hpre => hfe (Expiry.before_iff.2 hpre)
      refine List.pairwise_cons.2 ⟨fun g hg => ?_, h⟩
      rcases List.mem_cons.1 hg with rfl | hg
      · exact hef
      · exact hef.trans (hf g hg)

theorem Holds.schedule [IsStrictTotalOrder κ (· < ·)] (h : q.Holds es) (deadline generation : Nat) (key : κ) :
    (q.schedule deadline generation key).Holds (es ++ [⟨deadline, generation, key⟩]) where
  ordered := place_ordered h.ordered _
  same := (place_perm _ _).trans ((h.same.cons _).trans (List.perm_append_singleton _ _).symm)

/-! ## Any history -/

def step (q : ExpiryQueue κ) : Op κ → ExpiryQueue κ
  | .schedule deadline generation key => q.schedule deadline generation key
  | .popExpired now => (q.popExpired now).2

def run (q : ExpiryQueue κ) (ops : List (Op κ)) : ExpiryQueue κ := ops.foldl step q

/-- the entries that an operation returns -/
def returned (q : ExpiryQueue κ) : Op κ → List (Expiry κ)
  | .schedule .. => []
  | .popExpired now => (q.popExpired now).1

/-- the entries that the pops of a history return, one pop after the other -/
def popped (q : ExpiryQueue κ) : List (Op κ) → List (Expiry κ)
  | [] => []
  | op :: ops => q.returned op ++ (q.step op).popped ops

theorem run_snoc (q : ExpiryQueue κ) (ops : List (Op κ)) (op : Op κ) : q.run (ops ++ [op]) = (q.run ops).step op := by
  rw [run, List.foldl_append]
  rfl

theorem popped_snoc (q : ExpiryQueue κ) (ops : List (Op κ)) (op : Op κ) :
    q.popped (ops ++ [op]) = q.popped ops ++ (q.run ops).returned op := by
  induction ops generalizing q with
  | nil => exact List.append_nil _
  | cons o ops ih =>
    rw [List.cons_append, popped, popped, ih, List.append_assoc]
    rfl

variable [IsStrictTotalOrder κ (· < ·)]

theorem holds_run (ops : List (Op κ)) : ((empty : ExpiryQueue κ).run ops).Holds (outstanding ops) := by
  induction ops using List.reverseRecOn with
  | nil => exact ⟨.nil, .refl _⟩
  | append_singleton ops op ih =>
    rw [run_snoc]
    cases op with
    | schedule deadline generation key =>
      rw [outstanding_snoc_schedule]
      exact ih.schedule deadline generation key
    | popExpired now =>
      rw [outstanding_snoc_popExpired]
      exact ih.popExpired now

/-- every entry that is scheduled is returned by one pop, or outstanding -/
theorem popped_append_outstanding (ops : List (Op κ)) :
    ((empty : ExpiryQueue κ).popped ops ++ outstanding ops).Perm (scheduled ops) := by
  induction ops using List.reverseRecOn with
  | nil => exact .refl _
  | append_singleton ops op ih =>
    rw [popped_snoc, scheduled, List.filterMap_append, ← scheduled]
    cases op with
    | schedule deadline generation key =>
      rw [outstanding_snoc_schedule, returned, List.append_nil, ← List.append_assoc]
      exact ih.append_right _
    | popExpired now =>
      have h := holds_run ops
      have hsplit : (((empty : ExpiryQueue κ).run ops).popExpired now).1.Perm
          ((outstanding ops).filter fun e => e.deadline ≤ now) := by
        rw [h.popExpired_eq]
        exact h.same.filter _
      have hparts : ((outstanding ops).filter (fun e => e.deadline ≤ now) ++
          (outstanding ops).filter fun e => now < e.deadline).Perm (outstanding ops) := by
        simpa only [← decide_not, Nat.not_le] using
          List.filter_append_perm (fun e : Expiry κ => decide (e.deadline ≤ now)) (outstanding ops)
      rw [outstanding_snoc_popExpired, returned, List.append_assoc]
      refine (((hsplit.append_right _).trans hparts).append_left _).trans (ih.trans ?_)
      exact .of_eq (List.append_nil _).symm

/-- **The expiry queue is a sorted multiset.** Let entries be scheduled and popped in any order, with any repetitions.
Each entry scheduled so far has been returned by one pop or is outstanding, and the queue has the size of what is
outstanding. A pop returns the outstanding entries whose deadline is there, each as often as it is outstanding, in the
order of the triples of deadline, generation and key, and keeps the others. The next deadline is the least one of the
outstanding entries, and there is none exactly if the queue is empty. -/
theorem pops_due_in_order (ops : List (Op κ)) :
    let q := (empty : ExpiryQueue κ).run ops
    ((empty : ExpiryQueue κ).popped ops ++ outstanding ops).Perm (scheduled ops) ∧
      q.entries.Perm (outstanding ops) ∧ q.size = (outstanding ops).length ∧
      (∀ now, (q.popExpired now).1.Perm ((outstanding ops).filter fun e => e.deadline ≤ now) ∧
        (q.popExpired now).1.Pairwise Expiry.NotAfter ∧
        (q.popExpired now).2.entries.Perm ((outstanding ops).filter fun e => now < e.deadline)) ∧
      (∀ deadline, q.nextDeadline? = some deadline ↔
        (∃ e ∈ outstanding ops, e.deadline = deadline) ∧ ∀ e ∈ outstanding ops, deadline ≤ e.deadline) ∧
      (q.nextDeadline? = none ↔ q.isEmpty = true) := by
  intro q
  have h : q.Holds (outstanding ops) := holds_run ops
  refine ⟨popped_append_outstanding ops, h.same, h.same.length_eq, fun now => ⟨?_, ?_, ?_⟩, fun deadline => ?_, ?_⟩
  · rw [h.popExpired_eq]
    exact h.same.filter _
  · rw [h.popExpired_eq]
    exact h.ordered.filter _
  · exact (h.popExpired now).same
  · rw [h.nextDeadline?_eq, List.min?_eq_some_iff]
    simp only [List.mem_map, forall_exists_index, and_imp, forall_apply_eq_imp_iff₂]
  · rw [nextDeadline?, Option.map_eq_none_iff, List.head?_eq_none_iff, isEmpty, List.isEmpty_iff]

end ExpiryQueue

/-! ## Group keys -/

namespace Key

instance : IsStrictTotalOrder Key (· < ·) where
  irrefl k := List.lt_irrefl k.octets
  trans _ _ _ hij hjk := List.lt_trans hij hjk
  trichotomous j k hjk hkj := by
    by_contra hne
    exact hjk (lt_of_not_lt hkj (Ne.symm hne))

end Key

/-- two entries that are alike, and two of one deadline and generation, are popped in the order of their keys -/
theorem ExpiryQueue.equal_deadlines_pop_by_key :
    let ops : List (ExpiryQueue.Op Key) := [.schedule 5 1 ⟨[2]⟩, .popExpired 4, .schedule 5 1 ⟨[1, 7]⟩,
      .schedule 9 0 ⟨[]⟩, .schedule 5 1 ⟨[2]⟩]
    IsStrictTotalOrder Key (· < ·) ∧
      (((ExpiryQueue.empty : ExpiryQueue Key).run ops).popExpired 5).1.Perm
        [⟨5, 1, ⟨[2]⟩⟩, ⟨5, 1, ⟨[1, 7]⟩⟩, ⟨5, 1, ⟨[2]⟩⟩] ∧
      (((ExpiryQueue.empty : ExpiryQueue Key).run ops).popExpired 5).1 =
        [⟨5, 1, ⟨[1, 7]⟩⟩, ⟨5, 1, ⟨[2]⟩⟩, ⟨5, 1, ⟨[2]⟩⟩] := by
  intro ops
  obtain ⟨-, -, -, hpop, -⟩ := ExpiryQueue.pops_due_in_order ops
  exact ⟨inferInstance, (hpop 5).1, by decide⟩

end FlowGroups
