/-
Registries as maps. A look-up finds exactly the entries, and erasing or writing a key takes one value out of the list
of values or puts one into it. The list is counted up to order, because a key that is written again moves to the end.
-/
import Mathlib.Data.List.Nodup
import FlowGroups.Registry

namespace FlowGroups.Registry

variable {κ α : Type} [DecidableEq κ]

/-! ## Entries and look-ups -/

theorem mem_entries_iff {r : Registry κ α} {k : κ} {v : α} : (k, v) ∈ r.entries ↔ r.get? k = some v := by
  simp only [get?, Option.map_eq_some_iff]
  constructor
  · intro h
    obtain ⟨e, he⟩ : ∃ e, r.entries.find? (fun e => e.1 = k) = some e := by
      rw [← Option.isSome_iff_exists, List.find?_isSome]
      exact ⟨(k, v), h, by simp⟩
    have hk : e.1 = k := by simpa using List.find?_some he
    have hm := List.mem_of_find?_eq_some he
    have hn := List.inj_on_of_nodup_map r.nodup hm h hk
    exact ⟨e, he, by rw [hn]⟩
  · rintro ⟨e, he, rfl⟩
    have hk : e.1 = k := by simpa using List.find?_some he
    rw [← hk]
    exact List.mem_of_find?_eq_some he

theorem mem_values_iff {r : Registry κ α} {v : α} : v ∈ r.values ↔ ∃ k, r.get? k = some v := by
  simp only [values, List.mem_map]
  constructor
  · rintro ⟨e, he, rfl⟩
    exact ⟨e.1, mem_entries_iff.1 he⟩
  · rintro ⟨k, hk⟩
    exact ⟨(k, v), mem_entries_iff.2 hk, rfl⟩

theorem contains_iff {r : Registry κ α} {k : κ} : r.contains k = true ↔ ∃ v, r.get? k = some v := by
  rw [contains_eq_isSome, Option.isSome_iff_exists]

/-- what is found once a key is erased was there, under another key -/
theorem of_get?_erase {r : Registry κ α} {k j : κ} {v : α} (h : (r.erase k).get? j = some v) :
    j ≠ k ∧ r.get? j = some v := by
  rw [get?_erase] at h
  split_ifs at h with hj
  exact ⟨hj, h⟩

theorem get?_erase_of_none {r : Registry κ α} {k j : κ} (h : r.get? j = none) : (r.erase k).get? j = none := by
  rw [get?_erase]
  split_ifs
  · rfl
  · exact h

theorem erase_comm (r : Registry κ α) (j k : κ) : (r.erase j).erase k = (r.erase k).erase j := by
  apply ext
  simp only [erase, List.filter_filter, Bool.and_comm]

theorem get?_filterMap (r : Registry κ α) (f : κ → α → Option α) (k : κ) :
    (r.filterMap f).get? k = (r.get? k).bind (f k) := by
  apply Option.ext
  intro v
  rw [← mem_entries_iff, Option.bind_eq_some_iff]
  simp only [filterMap, List.mem_filterMap, Option.map_eq_some_iff, Prod.mk.injEq]
  constructor
  · rintro ⟨e, he, w, hw, rfl, rfl⟩
    exact ⟨e.2, mem_entries_iff.1 he, hw⟩
  · rintro ⟨u, hu, hv⟩
    exact ⟨(k, u), mem_entries_iff.2 hu, v, hv, rfl, rfl⟩

theorem eq_empty {r : Registry κ α} (h : ∀ k, r.get? k = none) : r = empty := by
  apply ext
  rw [empty, List.eq_nil_iff_forall_not_mem]
  rintro ⟨k, v⟩ he
  have hfound := mem_entries_iff.1 he
  rw [h k] at hfound
  cases hfound

/-! ## Values up to order -/

theorem erase_eq_self {r : Registry κ α} {k : κ} (h : r.get? k = none) : r.erase k = r := by
  apply ext
  simp only [erase, List.filter_eq_self, decide_eq_true_eq]
  intro e he hk
  have := mem_entries_iff.1 (show (k, e.2) ∈ r.entries by rw [← hk]; exact he)
  rw [h] at this
  cases this

theorem values_perm_erase {r : Registry κ α} {k : κ} {v : α} (h : r.get? k = some v) :
    r.values.Perm (v :: (r.erase k).values) := by
  simp only [get?, Option.map_eq_some_iff] at h
  obtain ⟨e, he, rfl⟩ := h
  obtain ⟨hk, front, back, hl, -⟩ := List.find?_eq_some_iff_append.1 he
  have hn := r.nodup
  have hek : e.1 = k := by simpa using hk
  rw [hl, List.map_append, List.map_cons, List.nodup_append, List.nodup_cons] at hn
  obtain ⟨-, ⟨hb, -⟩, hf⟩ := hn
  have hfront : front.filter (fun x => decide (x.1 ≠ k)) = front := by
    simp only [List.filter_eq_self, decide_eq_true_eq]
    intro x hx
    exact hek ▸ hf _ (List.mem_map_of_mem hx) _ List.mem_cons_self
  have hback : (e :: back).filter (fun x => decide (x.1 ≠ k)) = back := by
    rw [List.filter_cons_of_neg (by simp [hek])]
    simp only [List.filter_eq_self, decide_eq_true_eq]
    intro x hx hxk
    exact hb (List.mem_map.2 ⟨x, hx, hxk.trans hek.symm⟩)
  simp only [values, erase, hl, List.filter_append, hfront, hback, List.map_append, List.map_cons]
  exact List.perm_middle

theorem values_insert_perm (r : Registry κ α) (k : κ) (v : α) :
    (r.insert k v).values.Perm (v :: (r.erase k).values) := by
  simp only [values, insert, List.map_append, List.map_cons, List.map_nil]
  exact List.perm_append_singleton _ _

theorem flatMap_values_insert {β : Type} (r : Registry κ α) (k : κ) (v : α) (f : α → List β) :
    ((r.insert k v).values.flatMap f).Perm (f v ++ (r.erase k).values.flatMap f) :=
  (values_insert_perm r k v).flatMap_right f

/-- what all values hold together is what one key's value holds and what the others hold -/
theorem flatMap_values_perm {β : Type} (r : Registry κ α) (k : κ) (f : α → List β) :
    (r.values.flatMap f).Perm (((r.get? k).map f).getD [] ++ (r.erase k).values.flatMap f) := by
  cases h : r.get? k with
  | none => rw [erase_eq_self h]; exact List.Perm.refl _
  | some v => exact (values_perm_erase h).flatMap_right f

end FlowGroups.Registry
