/-
Keys that are confirmed in any order. A resolution counts down the elements that wait for its key, takes the key out of
the lists of awaited keys, and takes out the objectives under the key if no element waits for it. None of this looks at
another key, so that two resolutions can be exchanged; an element that waits for both keys is handed out by the later
one, whichever that is.

- `leftAfter_comm`: counting down for one key and for another.
- `ready_resolve`, `completed_resolve`: what is handed out and what goes on waiting are all that waited before.
- `resolveAll_perm`: some keys in any order lead to the same tracker, and hand out and complete the same in total.
- `resolutions_commute`: so do two keys, in any state.
-/
import FlowGroups.Proofs.Readiness

namespace FlowGroups

/-- the objectives that a resolution completes -/
def Resolution.completed : Resolution → List Registrant
  | complete rs => rs
  | advance _ | noop => []

namespace Tracker

/-! ## Counting down for two keys -/

/-- what goes on waiting when the elements with the given ids are counted down -/
def leftAfter (ids : List Nat) (ws : List Waiting) : List Waiting :=
  (ws.map (countDown ids)).filter fun w => !isReady ids w

/-- an element that goes on waiting, counted down; none if it is ready -/
def keep? (ids : List Nat) (w : Waiting) : Option Waiting :=
  if isReady ids (countDown ids w) then none else some (countDown ids w)

theorem leftAfter_eq (ids : List Nat) (ws : List Waiting) : leftAfter ids ws = ws.filterMap (keep? ids) := by
  induction ws with
  | nil => rfl
  | cons w ws ih =>
    rw [leftAfter] at ih
    rw [leftAfter, List.map_cons, List.filterMap_cons, keep?, ← ih]
    cases h : isReady ids (countDown ids w) <;> simp [h]

theorem leftAfter_nil (ws : List Waiting) : leftAfter [] ws = ws := by
  have hkeep : ∀ w, keep? [] w = some w := fun w => rfl
  rw [leftAfter_eq, funext hkeep, List.filterMap_some]

/-- an element that waits for both keys is ready once at most two were missing, whichever comes first -/
theorem keep?_comm (is js : List Nat) (w : Waiting) : (keep? is w).bind (keep? js) = (keep? js w).bind (keep? is) := by
  unfold keep? isReady countDown
  by_cases hi : w.id ∈ is
  · by_cases hlast : w.remaining - 1 = 0
    · by_cases hj : w.id ∈ js <;> simp [hi, hj, hlast]
    · by_cases hj : w.id ∈ js <;> simp [hi, hj, hlast]
  · by_cases hj : w.id ∈ js
    · by_cases hlast : w.remaining - 1 = 0 <;> simp [hi, hj, hlast]
    · simp [hi, hj]

theorem leftAfter_comm (is js : List Nat) (ws : List Waiting) :
    leftAfter is (leftAfter js ws) = leftAfter js (leftAfter is ws) := by
  calc leftAfter is (leftAfter js ws)
      = ws.filterMap fun w => (keep? js w).bind (keep? is) := by
        rw [leftAfter_eq, leftAfter_eq, List.filterMap_filterMap]
    _ = ws.filterMap fun w => (keep? is w).bind (keep? js) := by
        simp only [keep?_comm js is]
    _ = leftAfter js (leftAfter is ws) := by
        rw [leftAfter_eq, leftAfter_eq, List.filterMap_filterMap]

/-! ## Two resolutions -/

/-- a resolution, whatever waits for the key -/
theorem resolve_eq (t : Tracker) (k : Key) :
    (t.resolve k).1 = { t with
      waiting := leftAfter (t.awaiting k) t.waiting
      groups := t.groups.erase k
      objectives := if t.groups.contains k then t.objectives else t.objectives.erase k } := by
  rcases resolve_cases t k with ⟨ids, hids, he⟩ | ⟨rs, hg, -, he⟩ | ⟨hg, ho, he⟩
  · rw [he, awaiting, Registry.contains_eq_isSome, hids]
    rfl
  · rw [he, awaiting, Registry.contains_eq_isSome, hg, Registry.erase_eq_self hg]
    simp only [Option.getD_none, leftAfter_nil]
    rfl
  · rw [he, awaiting, Registry.contains_eq_isSome, hg, Registry.erase_eq_self hg, Registry.erase_eq_self ho]
    simp [leftAfter_nil]

theorem resolve_comm (t : Tracker) (j k : Key) : ((t.resolve j).1.resolve k).1 = ((t.resolve k).1.resolve j).1 := by
  by_cases hjk : j = k
  · rw [hjk]
  · have hkj : k ≠ j := fun h => hjk h.symm
    obtain ⟨-, -, hj⟩ := of_resolve t j
    obtain ⟨-, -, hk⟩ := of_resolve t k
    have hcontains : ∀ {i l : Key}, l ≠ i → (t.groups.erase i).contains l = t.groups.contains l := by
      intro i l hne
      rw [Registry.contains_eq_isSome, Registry.contains_eq_isSome, Registry.get?_erase, if_neg hne]
    rw [resolve_eq (t.resolve j).1, resolve_eq (t.resolve k).1, hj, hk, if_neg hkj, if_neg hjk, resolve_eq t j,
      resolve_eq t k]
    simp only [hcontains hkj, hcontains hjk, leftAfter_comm (t.awaiting k), Registry.erase_comm t.groups j]
    congr 1
    by_cases hcj : t.groups.contains j = true <;> by_cases hck : t.groups.contains k = true <;>
      simp [hcj, hck, Registry.erase_comm t.objectives j]

/-- an element that waits is handed out, or goes on waiting -/
theorem ready_resolve (t : Tracker) (k : Key) :
    ((t.resolve k).2.ready ++ (t.resolve k).1.elements).Perm t.elements := by
  rcases resolve_cases t k with ⟨ids, -, he⟩ | ⟨rs, -, -, he⟩ | ⟨-, -, he⟩
  · rw [he]
    exact elements_advance t k ids
  · rw [he]
    exact List.Perm.refl _
  · rw [he]
    exact List.Perm.refl _

/-- an objective that waits is completed, or goes on waiting -/
theorem completed_resolve (t : Tracker) (k : Key) :
    ((t.resolve k).2.completed ++ (t.resolve k).1.registrants).Perm t.registrants := by
  rcases resolve_cases t k with ⟨ids, -, he⟩ | ⟨rs, -, hrs, he⟩ | ⟨-, -, he⟩
  · rw [he]
    exact List.Perm.refl _
  · rw [he]
    exact (registrants_discharge hrs).symm
  · rw [he]
    exact List.Perm.refl _

/-! ## Any number of resolutions -/

/-- resolves some keys one after the other -/
def resolveAll (t : Tracker) : List Key → Tracker × List Resolution
  | [] => (t, [])
  | k :: ks =>
    let (t, r) := t.resolve k
    let (t, rs) := t.resolveAll ks
    (t, r :: rs)

theorem ready_resolveAll (t : Tracker) (ks : List Key) :
    ((t.resolveAll ks).2.flatMap Resolution.ready ++ (t.resolveAll ks).1.elements).Perm t.elements := by
  induction ks generalizing t with
  | nil => exact List.Perm.refl _
  | cons k ks ih =>
    simp only [resolveAll, List.flatMap_cons, List.append_assoc]
    exact ((ih (t.resolve k).1).append_left _).trans (ready_resolve t k)

theorem completed_resolveAll (t : Tracker) (ks : List Key) :
    ((t.resolveAll ks).2.flatMap Resolution.completed ++ (t.resolveAll ks).1.registrants).Perm t.registrants := by
  induction ks generalizing t with
  | nil => exact List.Perm.refl _
  | cons k ks ih =>
    simp only [resolveAll, List.flatMap_cons, List.append_assoc]
    exact ((ih (t.resolve k).1).append_left _).trans (completed_resolve t k)

/-- resolutions that lead to the same tracker hand out the same in total, and complete the same -/
theorem same_of_resolveAll {t : Tracker} {ks js : List Key} (h : (t.resolveAll ks).1 = (t.resolveAll js).1) :
    ((t.resolveAll ks).2.flatMap Resolution.ready).Perm ((t.resolveAll js).2.flatMap Resolution.ready) ∧
      ((t.resolveAll ks).2.flatMap Resolution.completed).Perm
        ((t.resolveAll js).2.flatMap Resolution.completed) := by
  constructor
  · have hsplit := (ready_resolveAll t ks).trans (ready_resolveAll t js).symm
    rw [h] at hsplit
    exact (List.perm_append_right_iff _).1 hsplit
  · have hsplit := (completed_resolveAll t ks).trans (completed_resolveAll t js).symm
    rw [h] at hsplit
    exact (List.perm_append_right_iff _).1 hsplit

theorem resolveAll_comm {ks js : List Key} (h : ks.Perm js) (t : Tracker) :
    (t.resolveAll ks).1 = (t.resolveAll js).1 := by
  induction h generalizing t with
  | nil => rfl
  | cons k _ ih => exact ih (t.resolve k).1
  | swap j k ks => simp only [resolveAll, resolve_comm t k j]
  | trans _ _ ih ih' => exact (ih t).trans (ih' t)

/-- **Confirmations may come in any order.** Whatever waits, some keys that are resolved in one order or in another lead
to the same tracker, and the elements that are handed out on the way and the objectives that are completed are the
same. -/
theorem resolveAll_perm {ks js : List Key} (h : ks.Perm js) (t : Tracker) :
    (t.resolveAll ks).1 = (t.resolveAll js).1 ∧
      ((t.resolveAll ks).2.flatMap Resolution.ready).Perm ((t.resolveAll js).2.flatMap Resolution.ready) ∧
      ((t.resolveAll ks).2.flatMap Resolution.completed).Perm
        ((t.resolveAll js).2.flatMap Resolution.completed) :=
  ⟨resolveAll_comm h t, same_of_resolveAll (resolveAll_comm h t)⟩

/-- **Resolutions commute.** In any state of a tracker, two keys that are resolved one after the other, in either order,
leave the same tracker behind; the two resolutions together hand out the same elements, and complete the same
objectives. -/
theorem resolutions_commute (t : Tracker) (j k : Key) :
    ((t.resolve j).1.resolve k).1 = ((t.resolve k).1.resolve j).1 ∧
      ((t.resolve j).2.ready ++ ((t.resolve j).1.resolve k).2.ready).Perm
        ((t.resolve k).2.ready ++ ((t.resolve k).1.resolve j).2.ready) ∧
      ((t.resolve j).2.completed ++ ((t.resolve j).1.resolve k).2.completed).Perm
        ((t.resolve k).2.completed ++ ((t.resolve k).1.resolve j).2.completed) := by
  obtain ⟨hready, hcompleted⟩ := same_of_resolveAll (t := t) (resolveAll_comm (List.Perm.swap k j []) t)
  simp only [resolveAll, List.flatMap_cons, List.flatMap_nil, List.append_nil] at hready hcompleted
  exact ⟨resolve_comm t j k, hready, hcompleted⟩

end Tracker

end FlowGroups
