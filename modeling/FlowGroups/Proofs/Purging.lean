/-
What is purged with objectives that are given up, because their time runs out or because one of them is taken out. The
elements under keys that have no objective left go, and with them the keys that only they waited for; all else stays
as it is. Nothing is assumed of the elements: they may wait for nothing, or name a key twice.

- `linked_run`: whatever is done to a tracker, its lists of awaited keys name elements that wait.
- `get?_expire`, `under_takeObjective`: which objectives are left under a key.
- `Pruned`: what is left of the elements and of the keys they wait for.
- `purged_exactly`: so it is whenever objectives expire or are taken out, after any history.
-/
import FlowGroups.Proofs.Readiness

namespace FlowGroups.Tracker

/-! ## Any history -/

theorem Linked.drop {t : Tracker} (h : t.Linked) (k : Key) : ((t.discharge k).purge k).Linked := by
  have hd : (t.discharge k).Linked := h.congr rfl rfl rfl
  exact hd.purge k

theorem Linked.step {t : Tracker} (h : t.Linked) (op : Op) : (t.step op).Linked := by
  cases op with
  | registerElement e owner => exact registerElement_keeps (fun _ => h.enlist e owner) h
  | registerObjective k r now => exact h.congr rfl rfl rfl
  | resolve k => exact resolve_keeps (fun _ hids => h.advance hids) (h.congr rfl rfl rfl) h
  | expire now => exact expire_keeps (P := Linked) (fun _ k hs => hs.drop k) (fun _ _ hs => hs.congr rfl rfl rfl) h now
  | takeObjective n =>
    exact takeObjective_keeps (P := Linked) (fun _ k hs => hs.drop k) (fun _ _ _ _ _ _ _ hs => hs.congr rfl rfl rfl) h n

theorem Linked.run {t : Tracker} (h : t.Linked) (ops : List Op) : (t.run ops).Linked := by
  induction ops generalizing t with
  | nil => exact h
  | cons op ops ih => exact ih (h.step op)

theorem linked_run (delay : Nat) (ops : List Op) : ((fresh delay).run ops).Linked := (linked_fresh delay).run ops

/-! ## Objectives that are left -/

/-- the registrants under a key, in the order they were registered -/
def under (t : Tracker) (k : Key) : List Registrant := ((t.objectives.get? k).map (·.list)).getD []

theorem under_of_some {t : Tracker} {k : Key} {rs : Registrants} (h : t.objectives.get? k = some rs) :
    t.under k = rs.list := by
  rw [under, h]
  rfl

theorem under_of_none {t : Tracker} {k : Key} (h : t.objectives.get? k = none) : t.under k = [] := by
  rw [under, h]
  rfl

theorem mem_under {t : Tracker} {k : Key} {r : Registrant} : r ∈ t.under k ↔ t.Registered k r := by
  cases hk : t.objectives.get? k with
  | none => simp [under, Registered, hk]
  | some rs => simp [under, Registered, hk]

/-- whoever is given up is everybody under the key -/
theorem under_of_expired {t : Tracker} {es : List (Expiry Key)} {k : Key} {rs : List Registrant}
    (h : (k, rs) ∈ (t.expireEntries es).2) : t.objectives.contains k = true ∧ rs = t.under k := by
  induction es generalizing t with
  | nil => exact absurd h List.not_mem_nil
  | cons e es ih =>
    simp only [expireEntries, List.mem_append] at h
    rcases expireEntry_cases t e with ⟨rs', hrs, he⟩ | he
    · rw [he] at h
      rcases h with h | h
      · obtain ⟨rfl, rfl⟩ : k = e.key ∧ rs = rs'.list := by simpa using h
        exact ⟨Registry.contains_iff.2 ⟨rs', hrs⟩, (under_of_some hrs).symm⟩
      · obtain ⟨hleft, hunder⟩ := ih h
        obtain ⟨ss, hss⟩ := Registry.contains_iff.1 hleft
        have hold : t.objectives.get? k = some ss := (Registry.of_get?_erase hss).2
        rw [hunder, under_of_some hss, under_of_some hold]
        exact ⟨Registry.contains_iff.2 ⟨ss, hold⟩, rfl⟩
    · rw [he] at h
      exact ih (h.resolve_left List.not_mem_nil)

theorem get?_expireEntries (es : List (Expiry Key)) (t : Tracker) (k : Key) :
    (t.expireEntries es).1.objectives.get? k =
      if k ∈ (t.expireEntries es).2.map Prod.fst then none else t.objectives.get? k := by
  induction es generalizing t with
  | nil => rfl
  | cons e es ih =>
    simp only [expireEntries, List.map_append, List.mem_append]
    rcases expireEntry_cases t e with ⟨rs, -, he⟩ | he
    · have hdrop : ((t.discharge e.key).purge e.key).objectives.get? k =
          if k = e.key then none else t.objectives.get? k := Registry.get?_erase _ _ _
      rw [he, ih, hdrop]
      by_cases hk : k = e.key
      · simp [hk]
      · by_cases hrest : k ∈ (((t.discharge e.key).purge e.key).expireEntries es).2.map Prod.fst <;> simp [hk, hrest]
    · rw [he, ih]
      by_cases hrest : k ∈ (t.expireEntries es).2.map Prod.fst <;> simp [hrest]

/-- the keys that are given up lose their objectives, and the others keep theirs -/
theorem get?_expire (t : Tracker) (now : Nat) (k : Key) :
    (t.expire now).1.objectives.get? k =
      if k ∈ (t.expire now).2.map Prod.fst then none else t.objectives.get? k :=
  get?_expireEntries _ _ k

theorem under_takeAt (t : Tracker) (n : UInt32) (j k : Key) :
    (t.takeAt n j).1.under k = if k = j then (t.under k).filter (fun r => r.objective.id ≠ n) else t.under k := by
  cases hj : t.objectives.get? j with
  | none =>
    rw [takeAt_of_none hj]
    split_ifs with hk
    · rw [hk, under_of_none hj]
      rfl
    · rfl
  | some rs =>
    rw [takeAt_of_some hj]
    by_cases hleft : rs.list.filter (fun r => r.objective.id ≠ n) = []
    · have hget : ((t.discharge j).purge j).objectives.get? k = if k = j then none else t.objectives.get? k :=
        Registry.get?_erase _ _ _
      rw [if_pos hleft, under, hget]
      split_ifs with hk
      · rw [hk, under_of_some hj, hleft]
        rfl
      · rfl
    · have hget : (t.retain j rs (rs.list.filter fun r => r.objective.id ≠ n)).objectives.get? k =
          if k = j then some { rs with list := rs.list.filter fun r => r.objective.id ≠ n } else t.objectives.get? k :=
        Registry.get?_insert _ _ _ _
      rw [if_neg hleft, under, hget]
      split_ifs with hk
      · rw [hk, under_of_some hj]
        rfl
      · rfl

theorem under_takeFrom (n : UInt32) (ks : List Key) (t : Tracker) (k : Key) :
    (t.takeFrom n ks).1.under k = if k ∈ ks then (t.under k).filter (fun r => r.objective.id ≠ n) else t.under k := by
  induction ks generalizing t with
  | nil => rfl
  | cons j ks ih =>
    rw [takeFrom, ih, under_takeAt]
    by_cases hj : k = j
    · by_cases hk : k ∈ ks
      · simp [hj, hj ▸ hk, List.filter_filter]
      · simp [hj, hj ▸ hk]
    · simp [hj]

/-- the others are left under every key, in their order -/
theorem under_takeObjective (t : Tracker) (n : UInt32) (k : Key) :
    (t.takeObjective n).1.under k = (t.under k).filter fun r => r.objective.id ≠ n := by
  rw [takeObjective, under_takeFrom]
  split_ifs with hk
  · rfl
  · have hnone : ∀ r ∈ t.under k, r.objective.id ≠ n := by
      intro r hr hn
      exact hk (mem_keysOf.2 ⟨r, mem_under.1 hr, hn⟩)
    exact (List.filter_eq_self.2 (by simpa using hnone)).symm

theorem hasObjective_takeObjective (t : Tracker) (n : UInt32) : (t.takeObjective n).1.hasObjective n = false := by
  rw [← Bool.not_eq_true, hasObjective_iff]
  rintro ⟨k, r, hr, hn⟩
  have hmem := mem_under.2 hr
  rw [under_takeObjective] at hmem
  have hother := (List.mem_filter.1 hmem).2
  simp [hn] at hother

/-- exactly the registrants of the objective are taken out -/
theorem taken_takeObjective (t : Tracker) (n : UInt32) :
    (t.takeObjective n).2.Perm (t.registrants.filter fun r => r.objective.id = n) := by
  have htaken : (t.takeObjective n).2.filter (fun r => r.objective.id = n) = (t.takeObjective n).2 := by
    rw [List.filter_eq_self]
    intro r hr
    simpa using objective_takeFrom hr
  have hleft : (t.takeObjective n).1.registrants.filter (fun r => r.objective.id = n) = [] := by
    rw [List.filter_eq_nil_iff]
    intro r hr hn
    obtain ⟨k, hk⟩ := mem_registrants_iff.1 hr
    have hnone := hasObjective_takeObjective t n
    rw [← Bool.not_eq_true, hasObjective_iff] at hnone
    exact hnone ⟨k, r, hk, by simpa using hn⟩
  have hall := (registrants_takeObjective t n).filter fun r => r.objective.id = n
  rw [List.filter_append, htaken, hleft, List.append_nil] at hall
  exact hall.symm

/-! ## Elements that are left -/

/-- `s` is left of `t` when objectives are given up -/
structure Pruned (t s : Tracker) : Prop where
  /-- the elements under keys that have lost their objectives go, and the others stay as they are -/
  waiting : s.waiting = t.waiting.filter fun w => !t.objectives.contains w.owner || s.objectives.contains w.owner
  /-- those wait for the keys they waited for -/
  awaiting : ∀ w ∈ s.waiting, ∀ k, w.id ∈ s.awaiting k ↔ w.id ∈ t.awaiting k
  /-- nothing else is listed under a key -/
  listed : ∀ k, ∀ id ∈ s.awaiting k, ∃ w ∈ s.waiting, w.id = id
  /-- no key is left that nobody waits for -/
  awaited : ∀ k, s.groups.contains k = true ↔ ∃ w ∈ s.waiting, w.id ∈ s.awaiting k

/-- a key has a list of ids exactly if an element waits for it -/
theorem Linked.contains_iff {t : Tracker} (h : t.Linked) (k : Key) :
    t.groups.contains k = true ↔ ∃ w ∈ t.waiting, w.id ∈ t.awaiting k := by
  rw [Registry.contains_iff]
  constructor
  · rintro ⟨ids, hids⟩
    have ha : t.awaiting k = ids := by
      rw [awaiting, hids]
      rfl
    obtain ⟨id, hid⟩ := List.exists_mem_of_ne_nil ids (h.awaited k ids hids)
    obtain ⟨w, hw, hwid, -⟩ := h.listed k id (ha ▸ hid)
    exact ⟨w, hw, by rw [hwid, ha]; exact hid⟩
  · rintro ⟨w, -, hw⟩
    cases hg : t.groups.get? k with
    | none => simp [awaiting, hg] at hw
    | some ids => exact ⟨ids, rfl⟩

/-- whatever goes on waiting waits for the same keys as before -/
def Remnant (t s : Tracker) : Prop :=
  s.Linked ∧ ∀ w ∈ s.waiting, w ∈ t.waiting ∧ ∀ k, w.id ∈ s.awaiting k ↔ w.id ∈ t.awaiting k

theorem Remnant.drop {t s : Tracker} (h : t.Remnant s) (k : Key) : t.Remnant ((s.discharge k).purge k) := by
  refine ⟨h.1.drop k, fun w hw => ?_⟩
  obtain ⟨hmem, howner⟩ := mem_waiting_purge.1 hw
  obtain ⟨hold, hkeys⟩ := h.2 w hmem
  have hd : (s.discharge k).Linked := h.1.congr rfl rfl rfl
  exact ⟨hold, fun j => (hd.mem_awaiting_purge_of_mem j hmem howner).trans (hkeys j)⟩

theorem Remnant.congr {t s u : Tracker} (h : t.Remnant s) (hw : u.waiting = s.waiting) (hg : u.groups = s.groups)
    (hn : u.nextId = s.nextId) : t.Remnant u := by
  refine ⟨h.1.congr hw hg hn, ?_⟩
  rw [hw]
  simp only [awaiting, hg]
  exact h.2

theorem Linked.remnant {t : Tracker} (h : t.Linked) : t.Remnant t := ⟨h, fun _ hw => ⟨hw, fun _ => Iff.rfl⟩⟩

theorem Remnant.pruned {t s : Tracker} (h : t.Remnant s) (hp : t.Parts s) : t.Pruned s where
  waiting := hp.waiting
  awaiting := fun w hw => (h.2 w hw).2
  listed := fun k id hid => by
    obtain ⟨w, hw, hwid, -⟩ := h.1.listed k id hid
    exact ⟨w, hw, hwid⟩
  awaited := h.1.contains_iff

theorem Linked.expire {t : Tracker} (h : t.Linked) (now : Nat) : t.Pruned (t.expire now).1 := by
  have hf : t.Remnant (t.expire now).1 :=
    expire_keeps (P := t.Remnant) (fun _ k hs => hs.drop k) (fun _ _ hs => hs.congr rfl rfl rfl) h.remnant now
  exact hf.pruned (Parts.expire t now)

theorem Linked.takeObjective {t : Tracker} (h : t.Linked) (n : UInt32) : t.Pruned (t.takeObjective n).1 := by
  have hf : t.Remnant (t.takeObjective n).1 :=
    takeObjective_keeps (P := t.Remnant) (fun _ k hs => hs.drop k) (fun _ _ _ _ _ _ _ hs => hs.congr rfl rfl rfl)
      h.remnant n
  exact hf.pruned (Parts.takeObjective t n)

/-- **Purging is exact.** After any history of a tracker let objectives run out of time, or let one be taken out. The
elements that go are those whose owner loses its objectives by this; the others are left as they were, with their
counts, and wait for the keys they waited for, while no key is left that nobody waits for. When time runs out, a key
that is given up is given up with all of its registrants, and every other key keeps its own. When an objective is taken
out, its registrants are taken out and no others; those are left under every key in their order, and nobody waits for
this objective any more. -/
theorem purged_exactly (delay : Nat) (ops : List Op) :
    let t := (fresh delay).run ops
    (∀ now, t.Pruned (t.expire now).1 ∧ (∀ k rs, (k, rs) ∈ (t.expire now).2 → rs = t.under k) ∧
        ∀ k, (t.expire now).1.objectives.get? k =
          if k ∈ (t.expire now).2.map Prod.fst then none else t.objectives.get? k) ∧
      ∀ n, t.Pruned (t.takeObjective n).1 ∧
        (t.takeObjective n).2.Perm (t.registrants.filter fun r => r.objective.id = n) ∧
        (∀ k, (t.takeObjective n).1.under k = (t.under k).filter fun r => r.objective.id ≠ n) ∧
        (t.takeObjective n).1.hasObjective n = false := by
  intro t
  have h : t.Linked := linked_run delay ops
  constructor
  · intro now
    refine ⟨h.expire now, fun k rs hgiven => ?_, get?_expire t now⟩
    exact (under_of_expired hgiven).2
  · intro n
    exact ⟨h.takeObjective n, taken_takeObjective t n, under_takeObjective t n, hasObjective_takeObjective t n⟩

end FlowGroups.Tracker
