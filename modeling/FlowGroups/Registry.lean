/-
Finite maps as lists of entries, each key once, in the order the keys were last written.
-/

namespace FlowGroups

structure Registry (κ α : Type) where
  entries : List (κ × α)
  nodup : (entries.map Prod.fst).Nodup := by simp

namespace Registry

@[ext] theorem ext {κ α : Type} {r s : Registry κ α} (h : r.entries = s.entries) : r = s := by
  cases r; cases s; cases h; rfl

variable {κ α : Type} [DecidableEq κ]

instance [DecidableEq α] : DecidableEq (Registry κ α) := fun r s =>
  decidable_of_iff (r.entries = s.entries) ⟨ext, fun h => h ▸ rfl⟩

def empty : Registry κ α := { entries := [] }

def keys (r : Registry κ α) : List κ := r.entries.map Prod.fst

def values (r : Registry κ α) : List α := r.entries.map Prod.snd

def get? (r : Registry κ α) (k : κ) : Option α :=
  (r.entries.find? fun e => e.1 = k).map Prod.snd

def contains (r : Registry κ α) (k : κ) : Bool := r.entries.any fun e => e.1 = k

def erase (r : Registry κ α) (k : κ) : Registry κ α where
  entries := r.entries.filter fun e => e.1 ≠ k
  nodup := r.nodup.sublist (List.filter_sublist.map _)

/-- writes a key; it moves behind all others -/
def insert (r : Registry κ α) (k : κ) (v : α) : Registry κ α where
  entries := (r.erase k).entries ++ [(k, v)]
  nodup := by
    rw [List.map_append, List.nodup_append]
    refine ⟨(r.erase k).nodup, by simp, ?_⟩
    intro a ha b hb
    simp only [erase, List.mem_map, List.mem_filter] at ha
    obtain ⟨e, ⟨-, he⟩, rfl⟩ := ha
    simp only [List.map_cons, List.map_nil, List.mem_singleton] at hb
    subst hb
    simpa using he

/-- gives every key a new value; a key that gets none is dropped -/
def filterMap (r : Registry κ α) (f : κ → α → Option α) : Registry κ α where
  entries := r.entries.filterMap fun e => (f e.1 e.2).map fun v => (e.1, v)
  nodup := by
    refine r.nodup.sublist ?_
    generalize r.entries = l
    induction l with
    | nil => exact List.Sublist.refl _
    | cons e l ih =>
      cases h : f e.1 e.2 with
      | none => simpa [h] using ih.cons e.1
      | some v => simpa [h] using ih.cons_cons e.1

/-! ## What a look-up finds -/

@[simp] theorem get?_empty (k : κ) : (empty : Registry κ α).get? k = none := rfl

theorem get?_erase (r : Registry κ α) (k j : κ) :
    (r.erase k).get? j = if j = k then none else r.get? j := by
  simp only [get?, erase, List.find?_filter]
  by_cases h : j = k
  · subst h
    simp
  · rw [if_neg h]
    congr 2
    funext e
    by_cases he : e.1 = j
    · simp [he, h]
    · simp [he]

theorem get?_insert (r : Registry κ α) (k j : κ) (v : α) :
    (r.insert k v).get? j = if j = k then some v else r.get? j := by
  have h := get?_erase r k j
  simp only [get?] at h ⊢
  simp only [insert, List.find?_append]
  by_cases hj : j = k
  · subst hj
    rw [if_pos rfl] at h
    simp [Option.map_eq_none_iff.1 h]
  · rw [if_neg hj] at h ⊢
    rw [← h]
    cases (r.erase k).entries.find? fun e => e.1 = j <;> simp [Ne.symm hj]

theorem contains_eq_isSome (r : Registry κ α) (k : κ) : r.contains k = (r.get? k).isSome := by
  rw [Bool.eq_iff_iff]
  simp [contains, get?, List.find?_isSome]

theorem mem_keys_iff (r : Registry κ α) (k : κ) : k ∈ r.keys ↔ r.contains k = true := by
  simp [keys, contains]

end Registry

end FlowGroups
