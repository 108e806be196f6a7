/-
When an element is handed out. A tracker is followed through a history of its operations, each named by its step
number; what waits at any time is traced back to the step it was registered at (`Accounts`).

- `Parts.waiting`: giving up objectives drops the elements under their keys, and leaves the others as they are.
- `Accounts.take`: an element waits from its registration until the last of its keys has been resolved or its owner is
  given up, and in between for the keys that have not been resolved yet.
- `handed_out_exactly`: each resolution hands out the elements whose last key it resolves, in the order of their
  registration, and no others.
-/
import FlowGroups.Proofs.Tracker

namespace FlowGroups

/-- the elements that a resolution hands out -/
def Resolution.ready : Resolution → List Element
  | advance es => es
  | complete _ | noop => []

namespace Tracker

/-! ## Histories -/

inductive Op
  | registerElement (e : Element) (owner : Key)
  | registerObjective (k : Key) (r : Registrant) (now : Nat)
  | resolve (k : Key)
  | expire (now : Nat)
  | takeObjective (objective : UInt32)
deriving DecidableEq

def step (t : Tracker) : Op → Tracker
  | .registerElement e owner => (t.registerElement e owner).1
  | .registerObjective k r now => t.registerObjective k r now
  | .resolve k => (t.resolve k).1
  | .expire now => (t.expire now).1
  | .takeObjective objective => (t.takeObjective objective).1

def run (t : Tracker) (ops : List Op) : Tracker := ops.foldl step t

/-- a tracker that began empty, after the first `n` steps of a history -/
def after (delay : Nat) (ops : List Op) (n : Nat) : Tracker := (fresh delay).run (ops.take n)

/-- the operation gives up the objectives under a key: they run out of time, or none is left when some are taken -/
def GivesUp (t : Tracker) (op : Op) (k : Key) : Prop :=
  match op with
  | .expire _ | .takeObjective _ => t.objectives.contains k = true ∧ (t.step op).objectives.contains k = false
  | _ => False

/-- every element that is registered waits for something, and for no key twice -/
def Awaits (ops : List Op) : Prop :=
  ∀ e owner, .registerElement e owner ∈ ops → e.waitOn.Nodup ∧ e.waitOn ≠ []

/-- the key is resolved at a step behind `i` and before `n` -/
def Resolved (ops : List Op) (k : Key) (i n : Nat) : Prop := ∃ m, i < m ∧ m < n ∧ ops[m]? = some (.resolve k)

/-- the objectives under the key are given up at a step behind `i` and before `n` -/
def GivenUp (delay : Nat) (ops : List Op) (k : Key) (i n : Nat) : Prop :=
  ∃ m op, i < m ∧ m < n ∧ ops[m]? = some op ∧ (after delay ops m).GivesUp op k

/-- The element is registered at step `i`; step `j` is the first one by which all of its keys have been resolved, and
its owner has not been given up before. -/
structure Due (delay : Nat) (ops : List Op) (i j : Nat) (e : Element) : Prop where
  registered : ∃ owner, ops[i]? = some (.registerElement e owner) ∧ ¬GivenUp delay ops owner i j
  complete : ∀ k ∈ e.waitOn, Resolved ops k i (j + 1)
  first : ∀ m < j, ¬∀ k ∈ e.waitOn, Resolved ops k i (m + 1)

theorem after_succ (delay : Nat) {ops : List Op} {n : Nat} {op : Op} (h : ops[n]? = some op) :
    after delay ops (n + 1) = (after delay ops n).step op := by
  rw [after, run, List.take_add_one, h, List.foldl_append]
  rfl

namespace Resolved

variable {ops : List Op} {k : Key} {i m n : Nat}

theorem mono (h : Resolved ops k i m) (hmn : m ≤ n) : Resolved ops k i n := by
  obtain ⟨l, hil, hlm, hl⟩ := h
  exact ⟨l, hil, Nat.lt_of_lt_of_le hlm hmn, hl⟩

theorem succ_iff (hin : i < n) : Resolved ops k i (n + 1) ↔ Resolved ops k i n ∨ ops[n]? = some (.resolve k) := by
  constructor
  · rintro ⟨m, him, hmn, hm⟩
    rcases Nat.lt_succ_iff_lt_or_eq.1 hmn with hlt | rfl
    · exact .inl ⟨m, him, hlt, hm⟩
    · exact .inr hm
  · rintro (h | h)
    · exact h.mono (Nat.le_succ n)
    · exact ⟨n, hin, Nat.lt_succ_self n, h⟩

/-- between a step and the next one there is none -/
theorem not_succ_self (ops : List Op) (k : Key) (n : Nat) : ¬Resolved ops k n (n + 1) := by
  rintro ⟨m, hnm, hmn, -⟩
  omega

end Resolved

namespace GivenUp

variable {delay : Nat} {ops : List Op} {k : Key} {i m n : Nat}

theorem mono (h : GivenUp delay ops k i m) (hmn : m ≤ n) : GivenUp delay ops k i n := by
  obtain ⟨l, op, hil, hlm, hl, hup⟩ := h
  exact ⟨l, op, hil, Nat.lt_of_lt_of_le hlm hmn, hl, hup⟩

theorem succ_iff {op : Op} (hin : i < n) (hop : ops[n]? = some op) :
    GivenUp delay ops k i (n + 1) ↔ GivenUp delay ops k i n ∨ (after delay ops n).GivesUp op k := by
  constructor
  · rintro ⟨m, op', him, hmn, hm, hup⟩
    rcases Nat.lt_succ_iff_lt_or_eq.1 hmn with hlt | rfl
    · exact .inl ⟨m, op', him, hlt, hm, hup⟩
    · cases hop.symm.trans hm
      exact .inr hup
  · rintro (h | h)
    · exact h.mono (Nat.le_succ n)
    · exact ⟨n, op, hin, Nat.lt_succ_self n, hop, h⟩

theorem not_succ_self (delay : Nat) (ops : List Op) (k : Key) (n : Nat) : ¬GivenUp delay ops k n (n + 1) := by
  rintro ⟨m, op, hnm, hmn, -⟩
  omega

end GivenUp

/-! ## What giving up leaves -/

/-- `s` is left of `t` when the objectives under some keys are given up, and the elements that these keys own -/
structure Parts (t s : Tracker) : Prop where
  consistent : t.Consistent → s.Consistent
  /-- no objective comes anew -/
  shrinks : ∀ k, s.objectives.contains k = true → t.objectives.contains k = true
  waiting : s.waiting = t.waiting.filter fun w => !t.objectives.contains w.owner || s.objectives.contains w.owner
  awaiting : t.Consistent → ∀ w ∈ s.waiting, ∀ k, w.id ∈ s.awaiting k ↔ w.id ∈ t.awaiting k

namespace Parts

variable {t s u : Tracker}

/-- nothing but the objectives and their times changes, and the keys with objectives are the same -/
theorem of_same (hk : ∀ k, s.objectives.contains k = t.objectives.contains k) (hw : s.waiting = t.waiting)
    (hg : s.groups = t.groups) (hn : s.nextId = t.nextId) : t.Parts s where
  consistent := fun h => h.congr hw hg hn
  shrinks := fun k hc => hk k ▸ hc
  waiting := by
    rw [hw, eq_comm, List.filter_eq_self]
    intro w _
    rw [hk]
    exact Bool.not_or_self _
  awaiting := fun _ w _ k => by rw [Tracker.awaiting, hg, Tracker.awaiting]

theorem trans (h : t.Parts s) (h' : s.Parts u) : t.Parts u where
  consistent := fun hc => h'.consistent (h.consistent hc)
  shrinks := fun k hc => h.shrinks k (h'.shrinks k hc)
  waiting := by
    rw [h'.waiting, h.waiting, List.filter_filter]
    apply List.filter_congr
    intro w _
    have hts := h.shrinks w.owner
    have hsu := h'.shrinks w.owner
    cases ht : t.objectives.contains w.owner <;> cases hs : s.objectives.contains w.owner <;>
      cases hu : u.objectives.contains w.owner <;> simp_all
  awaiting := by
    intro hc w hw k
    have hw' : w ∈ s.waiting := by
      rw [h'.waiting] at hw
      exact (List.mem_filter.1 hw).1
    exact (h'.awaiting (h.consistent hc) w hw k).trans (h.awaiting hc w hw' k)

theorem drop {k : Key} (hk : t.objectives.contains k = true) : t.Parts ((t.discharge k).purge k) := by
  have hleft : ∀ j, ((t.discharge k).purge k).objectives.contains j = (t.objectives.contains j && j ≠ k) := by
    intro j
    simp only [purge, discharge, Registry.contains_eq_isSome, Registry.get?_erase]
    by_cases hj : j = k <;> simp [hj]
  refine ⟨fun h => ?_, fun j hj => ?_, ?_, fun h w hw j => ?_⟩
  · have hd : (t.discharge k).Consistent := h.congr rfl rfl rfl
    exact hd.purge k
  · rw [hleft, Bool.and_eq_true] at hj
    exact hj.1
  · apply List.filter_congr
    intro w _
    rw [hleft]
    by_cases hw : w.owner = k
    · simp [hw, hk]
    · simp [hw]
  · obtain ⟨hmem, howner⟩ := mem_waiting_purge.1 hw
    have hd : (t.discharge k).Consistent := h.congr rfl rfl rfl
    exact hd.mem_awaiting_purge_of_mem j hmem howner

theorem expireEntry (t : Tracker) (e : Expiry Key) : t.Parts (t.expireEntry e).1 := by
  rcases expireEntry_cases t e with ⟨rs, hrs, he⟩ | he
  · rw [he]
    exact drop (Registry.contains_iff.2 ⟨rs, hrs⟩)
  · rw [he]
    exact of_same (fun _ => rfl) rfl rfl rfl

theorem expire (t : Tracker) (now : Nat) : t.Parts (t.expire now).1 := by
  have hall : ∀ (es : List (Expiry Key)) (t : Tracker), t.Parts (t.expireEntries es).1 := by
    intro es
    induction es with
    | nil => exact fun t => of_same (fun _ => rfl) rfl rfl rfl
    | cons e es ih => exact fun t => (expireEntry t e).trans (ih _)
  have htimes : t.Parts { t with expiry := (t.expiry.popExpired now).2 } := of_same (fun _ => rfl) rfl rfl rfl
  exact htimes.trans (hall _ _)

theorem takeAt (t : Tracker) (n : UInt32) (k : Key) : t.Parts (t.takeAt n k).1 := by
  rcases takeAt_cases t n k with he | ⟨rs, hrs, -, ⟨-, he⟩ | ⟨-, he⟩⟩
  · rw [he]
    exact of_same (fun _ => rfl) rfl rfl rfl
  · rw [he]
    exact drop (Registry.contains_iff.2 ⟨rs, hrs⟩)
  · rw [he]
    refine of_same (fun j => ?_) rfl rfl rfl
    simp only [retain, Registry.contains_eq_isSome, Registry.get?_insert]
    by_cases hj : j = k <;> simp [hj, hrs]

theorem takeObjective (t : Tracker) (n : UInt32) : t.Parts (t.takeObjective n).1 := by
  have hall : ∀ (ks : List Key) (t : Tracker), t.Parts (t.takeFrom n ks).1 := by
    intro ks
    induction ks with
    | nil => exact fun t => of_same (fun _ => rfl) rfl rfl rfl
    | cons k ks ih => exact fun t => (takeAt t n k).trans (ih _)
  exact hall _ t

end Parts

/-! ## What resolving leaves -/

/-- what waited for the key counts down, and what is ready then goes; if nothing waited for it, nothing does -/
theorem of_resolve (t : Tracker) (k : Key) :
    (t.resolve k).1.waiting = (t.waiting.map (countDown (t.awaiting k))).filter (fun w => !isReady (t.awaiting k) w) ∧
      (t.resolve k).2.ready = t.readyAfter (t.awaiting k) ∧
      ∀ j, (t.resolve k).1.awaiting j = if j = k then [] else t.awaiting j := by
  have hnone : t.groups.get? k = none →
      t.waiting = (t.waiting.map (countDown [])).filter (fun w => !isReady [] w) ∧ [] = t.readyAfter [] ∧
        ∀ j, t.awaiting j = if j = k then [] else t.awaiting j := by
    intro hg
    have hkeep : t.waiting.map (countDown []) = t.waiting := List.map_id'' (fun _ => if_neg List.not_mem_nil) _
    have hunready : ∀ w, isReady [] w = false := fun w => rfl
    refine ⟨by simp [hkeep, hunready], by simp [readyAfter, hunready], fun j => ?_⟩
    split_ifs with hj
    · rw [hj, awaiting, hg]
      rfl
    · rfl
  rcases resolve_cases t k with ⟨ids, hids, he⟩ | ⟨rs, hg, -, he⟩ | ⟨hg, -, he⟩
  · have ha : t.awaiting k = ids := by
      rw [awaiting, hids]
      rfl
    rw [he, ha]
    exact ⟨rfl, rfl, awaiting_advance t k ids⟩
  · have ha : t.awaiting k = [] := by
      rw [awaiting, hg]
      rfl
    rw [he, ha]
    exact hnone hg
  · have ha : t.awaiting k = [] := by
      rw [awaiting, hg]
      rfl
    rw [he, ha]
    exact hnone hg

theorem Consistent.resolve {t : Tracker} (h : t.Consistent) (k : Key) : (t.resolve k).1.Consistent :=
  resolve_keeps (fun _ hids => h.advance hids) (h.congr rfl rfl rfl) h

/-- ready are those for which the key is the only one missing -/
theorem Consistent.isReady_iff {t : Tracker} (h : t.Consistent) (k : Key) {w : Waiting} (hw : w ∈ t.waiting) :
    isReady (t.awaiting k) (countDown (t.awaiting k) w) = true ↔
      w.id ∈ t.awaiting k ∧ ∀ j ∈ w.element.waitOn, w.id ∈ t.awaiting j → j = k := by
  simp only [isReady, id_countDown, Bool.and_eq_true, decide_eq_true_eq, beq_iff_eq]
  apply and_congr_right
  intro hid
  obtain ⟨ids, hids⟩ : ∃ ids, t.groups.get? k = some ids := by
    cases hg : t.groups.get? k with
    | none => simp [awaiting, hg] at hid
    | some ids => exact ⟨ids, rfl⟩
  have ha : t.awaiting k = ids := by
    rw [awaiting, hids]
    rfl
  rw [ha, h.remaining_countDown hids hw, List.length_eq_zero_iff, List.filter_eq_nil_iff]
  simp only [awaiting_advance, decide_eq_true_eq]
  apply forall₂_congr
  intro j _
  by_cases hj : j = k <;> simp [hj]

theorem Consistent.step {t : Tracker} (h : t.Consistent) {op : Op}
    (hop : ∀ e owner, op = .registerElement e owner → e.waitOn.Nodup ∧ e.waitOn ≠ []) : (t.step op).Consistent := by
  cases op with
  | registerElement e owner =>
    obtain ⟨hd, hne⟩ := hop e owner rfl
    simp only [Tracker.step, registerElement_of_ne owner hne]
    exact h.enlist owner hd hne
  | registerObjective k r now => exact h.congr rfl rfl rfl
  | resolve k => exact h.resolve k
  | expire now => exact (Parts.expire t now).consistent h
  | takeObjective n => exact (Parts.takeObjective t n).consistent h

theorem Consistent.run {t : Tracker} (h : t.Consistent) {ops : List Op} (hops : Awaits ops) :
    (t.run ops).Consistent := by
  induction ops generalizing t with
  | nil => exact h
  | cons op ops ih =>
    refine ih (h.step fun e owner hop => ?_) fun e owner hmem => hops e owner (List.mem_cons_of_mem op hmem)
    exact hops e owner (hop ▸ List.mem_cons_self)

/-! ## Who waits, and since when -/

section

variable {delay : Nat} {ops : List Op}

/-- the element that waits was registered at step `i`, and waits for those of its keys not resolved since -/
structure Traced (delay : Nat) (ops : List Op) (n i : Nat) (w : Waiting) : Prop where
  earlier : i < n
  registered : ops[i]? = some (.registerElement w.element w.owner)
  missing : ∀ k ∈ w.element.waitOn, w.id ∈ (after delay ops n).awaiting k ↔ ¬Resolved ops k i n
  kept : ¬GivenUp delay ops w.owner i n

/-- an element registered at step `i` does not wait any more -/
def Done (delay : Nat) (ops : List Op) (n i : Nat) (e : Element) (owner : Key) : Prop :=
  (∀ k ∈ e.waitOn, Resolved ops k i n) ∨ GivenUp delay ops owner i n

/-- whatever waits after `n` steps, with the step it was registered at -/
structure Accounts (delay : Nat) (ops : List Op) (n : Nat) (entries : List (Nat × Waiting)) : Prop where
  waiting : entries.map Prod.snd = (after delay ops n).waiting
  ascending : entries.Pairwise fun x y => x.1 < y.1
  traced : ∀ x ∈ entries, Traced delay ops n x.1 x.2
  settled : ∀ i e owner, i < n → ops[i]? = some (.registerElement e owner) →
    (∃ x ∈ entries, x.1 = i) ∨ Done delay ops n i e owner

theorem consistent_after (hops : Awaits ops) (n : Nat) : (after delay ops n).Consistent :=
  (consistent_fresh delay).run fun e owner hmem => hops e owner (List.mem_of_mem_take hmem)

theorem Done.mono {m n i : Nat} {e : Element} {owner : Key} (h : Done delay ops m i e owner) (hmn : m ≤ n) :
    Done delay ops n i e owner :=
  h.imp (fun hall k hk => (hall k hk).mono hmn) fun hup => hup.mono hmn

namespace Traced

variable {n i : Nat} {w : Waiting} {op : Op}

/-- an operation that neither resolves a key nor gives up the owner lets the element go on waiting as before -/
theorem keep (h : Traced delay ops n i w) (hop : ops[n]? = some op) (hres : ∀ k, op ≠ .resolve k)
    (hup : ¬(after delay ops n).GivesUp op w.owner)
    (ha : ∀ k, w.id ∈ ((after delay ops n).step op).awaiting k ↔
      w.id ∈ (after delay ops n).awaiting k) : Traced delay ops (n + 1) i w where
  earlier := Nat.lt_succ_of_lt h.earlier
  registered := h.registered
  missing := by
    intro k hk
    have hsame : Resolved ops k i (n + 1) ↔ Resolved ops k i n := by
      rw [Resolved.succ_iff h.earlier, hop, Option.some.injEq, or_iff_left (hres k)]
    rw [after_succ delay hop, ha, hsame]
    exact h.missing k hk
  kept := by
    rw [GivenUp.succ_iff h.earlier hop, not_or]
    exact ⟨h.kept, hup⟩

/-- not all of its keys have been resolved -/
theorem incomplete (h : Traced delay ops n i w) (hops : Awaits ops)
    (hw : w ∈ (after delay ops n).waiting) : ¬∀ k ∈ w.element.waitOn, Resolved ops k i n := by
  intro hall
  obtain ⟨k, hk, ha⟩ := (consistent_after hops n).exists_awaiting hw
  exact (h.missing k hk).1 ha (hall k hk)

/-- a resolution makes an element ready if all of its keys have been resolved then -/
theorem isReady_iff {k : Key} (h : Traced delay ops n i w) (hops : Awaits ops)
    (hw : w ∈ (after delay ops n).waiting) (hop : ops[n]? = some (.resolve k)) :
    isReady ((after delay ops n).awaiting k)
        (countDown ((after delay ops n).awaiting k) w) = true ↔
      ∀ j ∈ w.element.waitOn, Resolved ops j i (n + 1) := by
  have hc : (after delay ops n).Consistent := consistent_after hops n
  have hnow : ∀ j, Resolved ops j i (n + 1) ↔ Resolved ops j i n ∨ j = k := by
    intro j
    rw [Resolved.succ_iff h.earlier, hop]
    simp [eq_comm]
  rw [hc.isReady_iff k hw]
  constructor
  · rintro ⟨-, honly⟩ j hj
    rw [hnow]
    by_contra hnot
    rw [not_or] at hnot
    exact hnot.2 (honly j hj ((h.missing j hj).2 hnot.1))
  · intro hall
    have honly : ∀ j ∈ w.element.waitOn, w.id ∈ (after delay ops n).awaiting j → j = k := by
      intro j hj ha
      exact ((hnow j).1 (hall j hj)).resolve_left ((h.missing j hj).1 ha)
    obtain ⟨j, hj, ha⟩ := hc.exists_awaiting hw
    exact ⟨honly j hj ha ▸ ha, honly⟩

end Traced

namespace Accounts

variable {n : Nat} {entries : List (Nat × Waiting)} {op : Op}

theorem mem_waiting (h : Accounts delay ops n entries) {x : Nat × Waiting} (hx : x ∈ entries) :
    x.2 ∈ (after delay ops n).waiting :=
  h.waiting ▸ List.mem_map_of_mem hx

/-- a new element is registered behind all others -/
theorem register {e : Element} {owner : Key} (h : Accounts delay ops n entries) (hops : Awaits ops)
    (hop : ops[n]? = some (.registerElement e owner)) :
    Accounts delay ops (n + 1) (entries ++ [(n, ⟨(after delay ops n).nextId, e, e.waitOn.length, owner⟩)]) := by
  have hne : e.waitOn ≠ [] := (hops e owner (List.mem_of_getElem? hop)).2
  have hstep : (after delay ops n).step (.registerElement e owner) = (after delay ops n).enlist e owner :=
    congrArg Prod.fst (registerElement_of_ne owner hne)
  have hnext : after delay ops (n + 1) = (after delay ops n).enlist e owner := (after_succ delay hop).trans hstep
  refine ⟨?_, ?_, ?_, ?_⟩
  · rw [hnext, List.map_append, h.waiting]
    rfl
  · rw [List.pairwise_append]
    refine ⟨h.ascending, List.pairwise_singleton _ _, fun x hx y hy => ?_⟩
    rw [List.mem_singleton.1 hy]
    exact (h.traced x hx).earlier
  · intro x hx
    rcases List.mem_append.1 hx with hx | hx
    · refine (h.traced x hx).keep hop (fun k => Op.noConfusion) id fun k => ?_
      rw [hstep]
      exact (consistent_after hops n).mem_awaiting_enlist_of_mem e owner k (h.mem_waiting hx)
    · rw [List.mem_singleton.1 hx]
      refine ⟨Nat.lt_succ_self n, hop, fun k hk => ?_, GivenUp.not_succ_self delay ops owner n⟩
      rw [hnext, mem_awaiting_enlist]
      simp [hk, Resolved.not_succ_self]
  · intro i e' owner' hi hreg
    rcases Nat.lt_succ_iff_lt_or_eq.1 hi with hlt | rfl
    · apply (h.settled i e' owner' hlt hreg).imp
      · rintro ⟨x, hx, rfl⟩
        exact ⟨x, List.mem_append_left _ hx, rfl⟩
      · exact fun hdone => hdone.mono (Nat.le_succ n)
    · exact .inl ⟨_, List.mem_append_right _ (List.mem_singleton.2 rfl), rfl⟩

/-- an operation that only drops the elements of owners it gives up -/
theorem sift {p : Waiting → Bool} (h : Accounts delay ops n entries) (hop : ops[n]? = some op)
    (hres : ∀ k, op ≠ .resolve k) (hreg : ∀ e owner, op ≠ .registerElement e owner)
    (hw : ((after delay ops n).step op).waiting = (after delay ops n).waiting.filter p)
    (hp : ∀ w, p w = true ↔ ¬(after delay ops n).GivesUp op w.owner)
    (ha : ∀ w ∈ ((after delay ops n).step op).waiting, ∀ k,
      w.id ∈ ((after delay ops n).step op).awaiting k ↔ w.id ∈ (after delay ops n).awaiting k) :
    Accounts delay ops (n + 1) (entries.filter fun x => p x.2) := by
  refine ⟨?_, h.ascending.filter _, ?_, ?_⟩
  · rw [after_succ delay hop, hw, ← h.waiting, List.filter_map]
    rfl
  · intro x hx
    obtain ⟨hx, hpx⟩ := List.mem_filter.1 hx
    refine (h.traced x hx).keep hop hres ((hp x.2).1 hpx) (ha x.2 ?_)
    rw [hw]
    exact List.mem_filter.2 ⟨h.mem_waiting hx, hpx⟩
  · intro i e owner hi hregister
    rcases Nat.lt_succ_iff_lt_or_eq.1 hi with hlt | rfl
    · rcases h.settled i e owner hlt hregister with ⟨x, hx, rfl⟩ | hdone
      · by_cases hpx : p x.2 = true
        · exact .inl ⟨x, List.mem_filter.2 ⟨hx, hpx⟩, rfl⟩
        · have hup : (after delay ops n).GivesUp op x.2.owner := not_not.1 fun hnot => hpx ((hp x.2).2 hnot)
          have hsame := (h.traced x hx).registered.symm.trans hregister
          simp only [Option.some.injEq, Op.registerElement.injEq] at hsame
          rw [hsame.2] at hup
          exact .inr (.inr ((GivenUp.succ_iff hlt hop).2 (.inr hup)))
      · exact .inr (hdone.mono (Nat.le_succ n))
    · rw [hop] at hregister
      exact absurd (Option.some.inj hregister) (hreg e owner)

/-- a resolution lets those elements go on waiting that have not got all their keys, and counts them down -/
theorem resolve {k : Key} (h : Accounts delay ops n entries) (hops : Awaits ops) (hop : ops[n]? = some (.resolve k)) :
    ∃ left, Accounts delay ops (n + 1) left := by
  let ids := (after delay ops n).awaiting k
  obtain ⟨hw, -, ha⟩ := of_resolve (after delay ops n) k
  have hnext : after delay ops (n + 1) = ((after delay ops n).resolve k).1 := after_succ delay hop
  refine ⟨(entries.filter fun x => !isReady ids (countDown ids x.2)).map fun x => (x.1, countDown ids x.2),
    ?_, ?_, ?_, ?_⟩
  · rw [hnext, hw, ← h.waiting, List.map_map, List.map_map, List.filter_map]
    rfl
  · exact List.pairwise_map.2 (h.ascending.filter _)
  · intro y hy
    obtain ⟨x, hx, rfl⟩ := List.mem_map.1 hy
    have htraced := h.traced x (List.mem_filter.1 hx).1
    refine ⟨Nat.lt_succ_of_lt htraced.earlier, ?_, fun j hj => ?_, ?_⟩
    · rw [element_countDown, owner_countDown]
      exact htraced.registered
    · rw [element_countDown] at hj
      rw [id_countDown, hnext, ha, Resolved.succ_iff htraced.earlier, hop, Option.some.injEq, Op.resolve.injEq, not_or,
        ← htraced.missing j hj, eq_comm (a := k)]
      split_ifs with hjk <;> simp [hjk]
    · rw [owner_countDown, GivenUp.succ_iff htraced.earlier hop, not_or]
      exact ⟨htraced.kept, id⟩
  · intro i e owner hi hregister
    rcases Nat.lt_succ_iff_lt_or_eq.1 hi with hlt | rfl
    · rcases h.settled i e owner hlt hregister with ⟨x, hx, rfl⟩ | hdone
      · have htraced := h.traced x hx
        by_cases hready : isReady ids (countDown ids x.2) = true
        · have hall := (htraced.isReady_iff hops (h.mem_waiting hx) hop).1 hready
          have hsame := htraced.registered.symm.trans hregister
          simp only [Option.some.injEq, Op.registerElement.injEq] at hsame
          rw [hsame.1] at hall
          exact .inr (.inl hall)
        · exact .inl ⟨_, List.mem_map_of_mem (List.mem_filter.2 ⟨hx, by simpa using hready⟩), rfl⟩
      · exact .inr (hdone.mono (Nat.le_succ n))
    · rw [hop] at hregister
      cases hregister

/-- giving up some objectives drops the elements of the keys that have none left -/
theorem giveUp (h : Accounts delay ops n entries) (hops : Awaits ops) (hop : ops[n]? = some op)
    (hres : ∀ k, op ≠ .resolve k) (hreg : ∀ e owner, op ≠ .registerElement e owner)
    (hparts : (after delay ops n).Parts ((after delay ops n).step op))
    (hup : ∀ k, (after delay ops n).GivesUp op k ↔
      (after delay ops n).objectives.contains k = true ∧ ((after delay ops n).step op).objectives.contains k = false) :
    ∃ left, Accounts delay ops (n + 1) left := by
  refine ⟨_, h.sift hop hres hreg hparts.waiting (fun w => ?_) (hparts.awaiting (consistent_after hops n))⟩
  rw [hup]
  cases (after delay ops n).objectives.contains w.owner <;> simp

/-- **One step**, whatever it is. -/
theorem step (h : Accounts delay ops n entries) (hops : Awaits ops) (hop : ops[n]? = some op) :
    ∃ left, Accounts delay ops (n + 1) left := by
  cases op with
  | registerElement e owner => exact ⟨_, h.register hops hop⟩
  | registerObjective k r now =>
    exact ⟨_, h.sift (p := fun _ => true) hop (fun k => Op.noConfusion) (fun e owner => Op.noConfusion)
      (List.filter_eq_self.2 fun _ _ => rfl).symm (fun w => ⟨fun _ => id, fun _ => rfl⟩) fun w _ k => Iff.rfl⟩
  | resolve k => exact h.resolve hops hop
  | expire now =>
    exact h.giveUp hops hop (fun k => Op.noConfusion) (fun e owner => Op.noConfusion) (Parts.expire _ now)
      fun k => Iff.rfl
  | takeObjective o =>
    exact h.giveUp hops hop (fun k => Op.noConfusion) (fun e owner => Op.noConfusion) (Parts.takeObjective _ o)
      fun k => Iff.rfl

/-- **All along a history** the elements that wait can be traced back to their registration. -/
theorem take (hops : Awaits ops) (hn : n ≤ ops.length) : ∃ entries, Accounts delay ops n entries := by
  induction n with
  | zero => exact ⟨[], rfl, .nil, by simp, fun i e owner hi => absurd hi (Nat.not_lt_zero i)⟩
  | succ n ih =>
    obtain ⟨entries, h⟩ := ih (Nat.le_of_succ_le hn)
    exact h.step hops (List.getElem?_eq_getElem hn)

/-- what a resolution hands out, with the steps at which the elements were registered -/
theorem ready {k : Key} (h : Accounts delay ops n entries) (hops : Awaits ops) (hop : ops[n]? = some (.resolve k)) :
    ∃ handed : List (Nat × Element), ((after delay ops n).resolve k).2.ready = handed.map Prod.snd ∧
      handed.Pairwise (fun x y => x.1 < y.1) ∧ ∀ i e, (i, e) ∈ handed ↔ Due delay ops i n e := by
  let ids := (after delay ops n).awaiting k
  obtain ⟨-, hready, -⟩ := of_resolve (after delay ops n) k
  refine ⟨(entries.filter fun x => isReady ids (countDown ids x.2)).map fun x => (x.1, x.2.element), ?_, ?_, ?_⟩
  · rw [hready, readyAfter, ← h.waiting, List.map_map, List.filter_map, List.map_map, List.map_map]
    exact List.map_congr_left fun x _ => element_countDown ids x.2
  · exact List.pairwise_map.2 (h.ascending.filter _)
  · intro i e
    simp only [List.mem_map, List.mem_filter, Prod.mk.injEq]
    constructor
    · rintro ⟨x, ⟨hx, hisReady⟩, rfl, rfl⟩
      have htraced := h.traced x hx
      refine ⟨⟨_, htraced.registered, htraced.kept⟩, ?_, fun m hm hall => ?_⟩
      · exact (htraced.isReady_iff hops (h.mem_waiting hx) hop).1 hisReady
      · exact htraced.incomplete hops (h.mem_waiting hx) fun j hj => (hall j hj).mono hm
    · rintro ⟨⟨owner, hregister, hkept⟩, hcomplete, hfirst⟩
      have hne : e.waitOn ≠ [] := (hops e owner (List.mem_of_getElem? hregister)).2
      obtain ⟨j, hj⟩ := List.exists_mem_of_ne_nil _ hne
      obtain ⟨m, him, hmn, -⟩ := hcomplete j hj
      have hlt : i < n := Nat.lt_of_lt_of_le him (Nat.le_of_lt_succ hmn)
      rcases h.settled i e owner hlt hregister with ⟨x, hx, rfl⟩ | hall | hup
      · have htraced := h.traced x hx
        have hsame := htraced.registered.symm.trans hregister
        simp only [Option.some.injEq, Op.registerElement.injEq] at hsame
        refine ⟨x, ⟨hx, ?_⟩, rfl, hsame.1⟩
        apply (htraced.isReady_iff hops (h.mem_waiting hx) hop).2
        rw [hsame.1]
        exact hcomplete
      · -- all keys were there one step earlier
        obtain ⟨l, hil, hln, hl⟩ := hall j hj
        refine absurd (fun q hq => ?_) (hfirst (n - 1) (by omega))
        exact (hall q hq).mono (by omega)
      · exact absurd hup hkept

end Accounts

theorem Due.unique {i j m : Nat} {e f : Element} (hj : Due delay ops i j e) (hm : Due delay ops i m f) : j = m := by
  obtain ⟨owner, he, -⟩ := hj.registered
  obtain ⟨owner', hf, -⟩ := hm.registered
  obtain ⟨rfl, -⟩ : e = f ∧ owner = owner' := by simpa using he.symm.trans hf
  rcases Nat.lt_trichotomy j m with hlt | heq | hlt
  · exact absurd hj.complete (hm.first j hlt)
  · exact heq
  · exact absurd hm.complete (hj.first m hlt)

theorem resolve_of_not_isPending {t : Tracker} {k : Key} (h : t.isPending k = false) : t.resolve k = (t, .noop) := by
  simp only [isPending, Bool.or_eq_false_iff, Registry.contains_eq_isSome, Option.isSome_eq_false_iff,
    Option.isNone_iff_eq_none] at h
  rcases resolve_cases t k with ⟨ids, hids, -⟩ | ⟨rs, -, hrs, -⟩ | ⟨-, -, he⟩
  · rw [h.1] at hids
    cases hids
  · rw [h.2] at hrs
    cases hrs
  · exact he

end

/-- **An element is handed out exactly when the last of its keys is resolved.** Let every element that is registered in
a history wait for something, and for no key twice. Then a resolution at step `j` hands out the elements registered at
just those steps `i` for which `j` is the first step behind `i` by which each key of the element has been resolved at
some step behind `i`, while no step in between gave up the objectives under its owner; it hands them out in the order of
their registration. An element is handed out at one step at most, and resolving a key that nothing waits for changes
nothing. -/
theorem handed_out_exactly {delay : Nat} {ops : List Op} (hops : Awaits ops) :
    (∀ j k, ops[j]? = some (.resolve k) →
      ∃ handed : List (Nat × Element), ((after delay ops j).resolve k).2.ready = handed.map Prod.snd ∧
        handed.Pairwise (fun x y => x.1 < y.1) ∧ ∀ i e, (i, e) ∈ handed ↔ Due delay ops i j e) ∧
      (∀ i j m e f, Due delay ops i j e → Due delay ops i m f → j = m) ∧
      ∀ j k, (after delay ops j).isPending k = false → (after delay ops j).resolve k = (after delay ops j, .noop) := by
  refine ⟨fun j k hj => ?_, fun i j m e f => Due.unique, fun j k => resolve_of_not_isPending⟩
  obtain ⟨hlt, -⟩ := List.getElem?_eq_some_iff.1 hj
  obtain ⟨entries, h⟩ : ∃ entries, Accounts delay ops j entries := Accounts.take hops (Nat.le_of_lt hlt)
  exact h.ready hops hj

end Tracker

namespace Sample

/-- an element that creates the group under one key and waits for some others -/
def waiter (k : UInt32) (ks : List Key) : Element :=
  ⟨⟨⟨"of:1"⟩, .indirect, [], Key.ofWord k, ⟨k⟩, ⟨"sample"⟩⟩, ks, false⟩

/-- Two elements wait for key 1 or 2, then the second one's owner runs out of time; key 1 is confirmed twice, and key 2
before and after another element is registered for it. -/
def history : List Tracker.Op :=
  [.registerElement (waiter 10 [Key.ofWord 1, Key.ofWord 2]) (Key.ofWord 20),
    .registerElement (waiter 11 [Key.ofWord 2]) (Key.ofWord 21),
    .registerObjective (Key.ofWord 21) ⟨0, ⟨7, .simple, [], ⟨"sample"⟩, none⟩, ⟨7, []⟩, ⟨11⟩⟩ 0,
    .resolve (Key.ofWord 1), .resolve (Key.ofWord 1), .expire 20, .resolve (Key.ofWord 2),
    .registerElement (waiter 12 [Key.ofWord 2]) (Key.ofWord 22), .resolve (Key.ofWord 2)]

end Sample

/-- of the two elements that wait for key 2 at step 6, the one whose owner was given up is not handed out -/
theorem elements_of_sample_handed_out : Tracker.Awaits Sample.history ∧
    ((Tracker.after 20 Sample.history 6).resolve (Key.ofWord 2)).2.ready =
      [Sample.waiter 10 [Key.ofWord 1, Key.ofWord 2]] ∧
    ∃ handed : List (Nat × Element),
      ((Tracker.after 20 Sample.history 6).resolve (Key.ofWord 2)).2.ready = handed.map Prod.snd ∧
      handed.Pairwise (fun x y => x.1 < y.1) ∧
      ∀ i e, (i, e) ∈ handed ↔ Tracker.Due 20 Sample.history i 6 e := by
  have hawaits : Tracker.Awaits Sample.history := by
    intro e owner hmem
    simp only [Sample.history, List.mem_cons, Tracker.Op.registerElement.injEq, reduceCtorEq, List.not_mem_nil,
      or_false, false_or] at hmem
    rcases hmem with ⟨rfl, -⟩ | ⟨rfl, -⟩ | ⟨rfl, -⟩ <;> decide
  exact ⟨hawaits, by decide +kernel, (Tracker.handed_out_exactly hawaits).1 6 (Key.ofWord 2) rfl⟩

end FlowGroups
