/-
The groups a switch knows. A group *stands* if it exists and is *held* if it was requested and not confirmed yet. A
request to add a group makes one group known, and nothing but the removal of a group takes one away that stands.
-/
import FlowGroups.Switch
import FlowGroups.Proofs.Registry

namespace FlowGroups

/-- what happens on the switch's side -/
inductive SwitchMove
  | confirm (k : Key)
  | installSilently (k : Key)
  | reject (k : Key)
  /-- undelivered events get lost, come twice or in another order, or were never emitted -/
  | scramble (events : List Event)
deriving DecidableEq, Repr

namespace Switch

def move (s : Switch) : SwitchMove → Switch
  | .confirm k => (s.confirm k).1
  | .installSilently k => (s.installSilently k).1
  | .reject k => (s.reject k).1
  | .scramble events => { s with events }

def Stands (s : Switch) (place : Place) : Prop := ∃ d, s.installed.get? place = some d

def Holds (s : Switch) (place : Place) : Prop := ∃ d, s.requested.get? place = some d

/-- was the group asked for, and is it on its way or there? -/
def Knows (s : Switch) (place : Place) : Prop := s.Stands place ∨ s.Holds place

theorem stands_insert {r : Registry Place Descriptor} {place p : Place} {d : Descriptor} :
    (∃ e, (r.insert place d).get? p = some e) ↔ (∃ e, r.get? p = some e) ∨ p = place := by
  rw [Registry.get?_insert]
  split_ifs with h
  · simp [h]
  · simp [h]

/-! ## Requests of the controller -/

theorem stands_addGroup {s : Switch} {d : Descriptor} {p : Place} (h : s.Stands p) : (s.addGroup d).Stands p := by
  dsimp only [addGroup]
  split_ifs
  · exact stands_insert.2 (Or.inl h)
  · exact h

theorem knows_addGroup {s : Switch} {d : Descriptor} {p : Place} :
    (s.addGroup d).Knows p ↔ s.Knows p ∨ p = (d.device, d.key) := by
  dsimp only [addGroup]
  split_ifs
  · exact (or_congr_left stands_insert).trans or_right_comm
  · exact (or_congr_right stands_insert).trans or_assoc.symm

theorem stands_editBuckets {s : Switch} {device : DeviceId} {k : Key} {f : List Bucket → List Bucket} {p : Place} :
    (s.editBuckets device k f).Stands p ↔ s.Stands p := by
  unfold editBuckets
  split
  · rename_i d hd
    refine stands_insert.trans ⟨fun h => h.elim id ?_, Or.inl⟩
    rintro rfl
    exact ⟨d, hd⟩
  · exact Iff.rfl

theorem holds_editBuckets {s : Switch} {device : DeviceId} {k : Key} {f : List Bucket → List Bucket} {p : Place} :
    (s.editBuckets device k f).Holds p ↔ s.Holds p := by
  unfold editBuckets
  split <;> exact Iff.rfl

/-! ## The switch's side -/

theorem request?_some {s : Switch} {k : Key} {place : Place} {d : Descriptor} (h : s.request? k = some (place, d)) :
    s.requested.get? place = some d :=
  Registry.mem_entries_iff.1 (List.mem_of_find?_eq_some h)

/-- a group that is installed is the one that was held, and it is held no longer -/
theorem installSilently_cases (s : Switch) (k : Key) : (s.installSilently k).1 = s ∨
    ∃ place d, s.requested.get? place = some d ∧ (s.installSilently k).1 =
      { s with installed := s.installed.insert place d, requested := s.requested.erase place } := by
  unfold installSilently
  split
  · rename_i place d h
    exact Or.inr ⟨place, d, request?_some h, rfl⟩
  · exact Or.inl rfl

theorem stands_installSilently {s : Switch} {k : Key} {p : Place} (h : s.Stands p) :
    (s.installSilently k).1.Stands p := by
  rcases installSilently_cases s k with he | ⟨place, d, -, he⟩
  · rw [he]; exact h
  · rw [he]; exact stands_insert.2 (Or.inl h)

/-- a group that is confirmed was known before, and is known after -/
theorem knows_installSilently {s : Switch} {k : Key} {p : Place} :
    (s.installSilently k).1.Knows p ↔ s.Knows p := by
  rcases installSilently_cases s k with he | ⟨place, d, hplace, he⟩
  · rw [he]
  · rw [he]
    simp only [Knows, Stands, Holds, stands_insert, Registry.get?_erase]
    by_cases hp : p = place
    · subst hp
      exact ⟨fun _ => Or.inr ⟨d, hplace⟩, fun _ => Or.inl (Or.inr rfl)⟩
    · simp [hp]

/-- a confirmation is a silent installation with an event -/
theorem confirm_groups (s : Switch) (k : Key) : (s.confirm k).1.installed = (s.installSilently k).1.installed ∧
    (s.confirm k).1.requested = (s.installSilently k).1.requested := by
  unfold confirm
  split <;> rename_i h <;> rw [h] <;> exact ⟨rfl, rfl⟩

theorem reject_groups (s : Switch) (k : Key) : (s.reject k).1.installed = s.installed ∧
    ∀ p, (s.reject k).1.Holds p → s.Holds p := by
  unfold reject
  split_ifs
  · refine ⟨rfl, fun p ⟨d, hd⟩ => ?_⟩
    have hf := Registry.get?_filterMap s.requested (fun place d => if place.2 = k then none else some d) p
    obtain ⟨e, he, -⟩ := Option.bind_eq_some_iff.1 (hf.symm.trans hd)
    exact ⟨e, he⟩
  · exact ⟨rfl, fun p h => h⟩

/-- a move changes the groups and the events, and nothing else -/
theorem move_eq (s : Switch) (m : SwitchMove) :
    ∃ installed requested events, s.move m = { s with installed, requested, events } := by
  cases m with
  | confirm k =>
    simp only [move, confirm, installSilently]
    split <;> rename_i h <;> split at h <;> cases h <;> exact ⟨_, _, _, rfl⟩
  | installSilently k =>
    simp only [move, installSilently]
    split <;> exact ⟨_, _, _, rfl⟩
  | reject k =>
    simp only [move, reject]
    split_ifs <;> exact ⟨_, _, _, rfl⟩
  | scramble events => exact ⟨_, _, events, rfl⟩

theorem stands_move {s : Switch} {p : Place} (m : SwitchMove) (h : s.Stands p) : (s.move m).Stands p := by
  cases m with
  | confirm k =>
    rw [move, Stands, (confirm_groups s k).1]
    exact stands_installSilently h
  | installSilently k => exact stands_installSilently h
  | reject k =>
    rw [move, Stands, (reject_groups s k).1]
    exact h
  | scramble events => exact h

theorem knows_of_move {s : Switch} {p : Place} {m : SwitchMove} (h : (s.move m).Knows p) : s.Knows p := by
  cases m with
  | confirm k =>
    rw [move, Knows, Stands, Holds, (confirm_groups s k).1, (confirm_groups s k).2] at h
    exact knows_installSilently.1 h
  | installSilently k => exact knows_installSilently.1 h
  | reject k =>
    rw [move, Knows, Stands, (reject_groups s k).1] at h
    exact h.imp_right ((reject_groups s k).2 p)
  | scramble events => exact h

/-- only a rejection makes a switch forget -/
theorem knows_move {s : Switch} {p : Place} {m : SwitchMove} (hm : ∀ k, m ≠ .reject k) (h : s.Knows p) :
    (s.move m).Knows p := by
  cases m with
  | confirm k =>
    rw [move, Knows, Stands, Holds, (confirm_groups s k).1, (confirm_groups s k).2]
    exact knows_installSilently.2 h
  | installSilently k => exact knows_installSilently.2 h
  | reject k => exact absurd rfl (hm k)
  | scramble events => exact h

/-! ## What holds of all groups -/

/-- does this hold of every group that stands or is held? -/
def All (P : Place → Descriptor → Prop) (s : Switch) : Prop :=
  ∀ place d, s.installed.get? place = some d ∨ s.requested.get? place = some d → P place d

variable {P : Place → Descriptor → Prop} {s : Switch}

theorem all_fresh (P : Place → Descriptor → Prop) (isAutomatic : Bool) : (fresh isAutomatic).All P := by
  rintro place d (h | h) <;> cases h

theorem All.mono {Q : Place → Descriptor → Prop} (h : s.All P) (hPQ : ∀ place d, P place d → Q place d) : s.All Q :=
  fun place d hd => hPQ place d (h place d hd)

theorem All.addGroup {d : Descriptor} (h : s.All P) (hd : P (d.device, d.key) d) : (s.addGroup d).All P := by
  have hinsert : ∀ {r : Registry Place Descriptor} {place e}, (r.insert (d.device, d.key) d).get? place = some e →
      P place e ∨ r.get? place = some e := by
    intro r place e he
    rw [Registry.get?_insert] at he
    split_ifs at he with hplace
    · cases he
      exact Or.inl (hplace ▸ hd)
    · exact Or.inr he
  dsimp only [Switch.addGroup]
  split_ifs
  · rintro place e (he | he)
    · exact (hinsert he).elim id fun he => h place e (Or.inl he)
    · exact h place e (Or.inr he)
  · rintro place e (he | he)
    · exact h place e (Or.inl he)
    · exact (hinsert he).elim id fun he => h place e (Or.inr he)

theorem All.editBuckets {device : DeviceId} {k : Key} {f : List Bucket → List Bucket} (h : s.All P)
    (hf : ∀ d, P (device, k) d → P (device, k) { d with buckets := f d.buckets }) : (s.editBuckets device k f).All P := by
  unfold Switch.editBuckets
  split
  · rename_i d hd
    rintro place e (he | he)
    · simp only [Registry.get?_insert] at he
      split_ifs at he with hplace
      · cases he
        exact hplace ▸ hf d (h _ d (Or.inl hd))
      · exact h place e (Or.inl he)
    · exact h place e (Or.inr he)
  · exact h

theorem All.installSilently (h : s.All P) (k : Key) : (s.installSilently k).1.All P := by
  rcases installSilently_cases s k with he | ⟨place, d, hd, he⟩
  · rw [he]
    exact h
  · rw [he]
    rintro q e (hq | hq)
    · simp only [Registry.get?_insert] at hq
      split_ifs at hq with hplace
      · cases hq
        exact hplace ▸ h place d (Or.inr hd)
      · exact h q e (Or.inl hq)
    · exact h q e (Or.inr (Registry.of_get?_erase hq).2)

theorem All.reject (h : s.All P) (k : Key) : (s.reject k).1.All P := by
  unfold Switch.reject
  split_ifs
  · rintro q e (he | he)
    · exact h q e (Or.inl he)
    · have hf := Registry.get?_filterMap s.requested (fun place d => if place.2 = k then none else some d) q
      obtain ⟨d, hd, hkeep⟩ := Option.bind_eq_some_iff.1 (hf.symm.trans he)
      split_ifs at hkeep
      cases hkeep
      exact h q e (Or.inr hd)
  · exact h

theorem All.move (h : s.All P) (m : SwitchMove) : (s.move m).All P := by
  cases m with
  | confirm k =>
    rw [Switch.move, All, (confirm_groups s k).1, (confirm_groups s k).2]
    exact h.installSilently k
  | installSilently k => exact h.installSilently k
  | reject k => exact h.reject k
  | scramble events => exact h

/-! ## One place -/

theorem get?_addGroup_of_ne (s : Switch) {d : Descriptor} {place : Place} (h : place ≠ (d.device, d.key)) :
    (s.addGroup d).installed.get? place = s.installed.get? place ∧
      (s.addGroup d).requested.get? place = s.requested.get? place := by
  dsimp only [Switch.addGroup]
  split_ifs
  · exact ⟨(Registry.get?_insert _ _ _ _).trans (if_neg h), rfl⟩
  · exact ⟨rfl, (Registry.get?_insert _ _ _ _).trans (if_neg h)⟩

theorem get?_editBuckets {s : Switch} {device : DeviceId} {k : Key} {f : List Bucket → List Bucket} {d : Descriptor}
    (h : s.installed.get? (device, k) = some d) :
    (s.editBuckets device k f).installed.get? (device, k) = some { d with buckets := f d.buckets } ∧
      (s.editBuckets device k f).requested = s.requested := by
  have hgroup : s.group? device k = some d := h
  rw [editBuckets, hgroup]
  exact ⟨(Registry.get?_insert _ _ _ _).trans (if_pos rfl), rfl⟩

/-- a change of buckets changes no id -/
theorem id_editBuckets (s : Switch) (device : DeviceId) (k : Key) (f : List Bucket → List Bucket) (p : Place) :
    ((s.editBuckets device k f).installed.get? p).map (·.id) = (s.installed.get? p).map (·.id) := by
  unfold editBuckets
  split
  · rename_i d hd
    have hgroup : s.installed.get? (device, k) = some d := hd
    simp only [Registry.get?_insert]
    split_ifs with hp
    · rw [hp, hgroup]
      rfl
    · rfl
  · rfl

/-- what the switch does to a place where nothing is held -/
theorem get?_move_of_unheld {place : Place} (h : s.requested.get? place = none) (m : SwitchMove) :
    (s.move m).installed.get? place = s.installed.get? place ∧ (s.move m).requested.get? place = none := by
  have hsilent : ∀ k, (s.installSilently k).1.installed.get? place = s.installed.get? place ∧
      (s.installSilently k).1.requested.get? place = none := by
    intro k
    rcases installSilently_cases s k with he | ⟨q, d, hd, he⟩
    · rw [he]
      exact ⟨rfl, h⟩
    · have hne : place ≠ q := by
        rintro rfl
        rw [h] at hd
        cases hd
      rw [he]
      exact ⟨(Registry.get?_insert _ _ _ _).trans (if_neg hne), (Registry.get?_erase _ _ _).trans (by rw [if_neg hne, h])⟩
  cases m with
  | confirm k =>
    rw [Switch.move, (confirm_groups s k).1, (confirm_groups s k).2]
    exact hsilent k
  | installSilently k => exact hsilent k
  | reject k =>
    refine ⟨congrArg (·.get? place) (reject_groups s k).1, ?_⟩
    rw [Option.eq_none_iff_forall_ne_some]
    intro d hd
    obtain ⟨e, he⟩ := (reject_groups s k).2 place ⟨d, hd⟩
    rw [h] at he
    cases he
  | scramble events => exact ⟨rfl, h⟩

/-- a group is not at once there and held -/
def Exclusive (s : Switch) (place : Place) : Prop := s.Stands place → s.requested.get? place = none

theorem Exclusive.move {place : Place} (h : s.Exclusive place) (m : SwitchMove) : (s.move m).Exclusive place := by
  by_cases hr : s.requested.get? place = none
  · exact fun _ => (get?_move_of_unheld hr m).2
  · have hstands : ¬s.Stands place := fun hs => hr (h hs)
    have hsilent : ∀ k, (s.installSilently k).1.Exclusive place := by
      rintro k hs
      rcases installSilently_cases s k with he | ⟨q, d, -, he⟩
      · rw [he] at hs
        exact absurd hs hstands
      · rw [he] at hs ⊢
        rcases stands_insert.1 hs with hs | rfl
        · exact absurd hs hstands
        · exact (Registry.get?_erase _ _ _).trans (if_pos rfl)
    cases m with
    | confirm k =>
      rw [Switch.move, Exclusive, Stands, (confirm_groups s k).1, (confirm_groups s k).2]
      exact hsilent k
    | installSilently k => exact hsilent k
    | reject k =>
      rw [Switch.move, Exclusive, Stands, (reject_groups s k).1]
      exact fun hs => absurd hs hstands
    | scramble events => exact h

/-! ## Removals -/

/-- the switch once it was asked to remove some groups -/
def removeGroups (s : Switch) (device : DeviceId) (ks : List Key) : Switch :=
  ks.foldl (fun s k => s.removeGroup device k) s

theorem get?_removeGroup (s : Switch) (device : DeviceId) (k : Key) (p : Place) :
    ((s.removeGroup device k).installed.get? p = if p = (device, k) then none else s.installed.get? p) ∧
      (s.removeGroup device k).requested.get? p = if p = (device, k) then none else s.requested.get? p := by
  dsimp only [removeGroup]
  split_ifs <;> simp_all [emit, log, Registry.get?_erase]

theorem get?_removeGroups (s : Switch) (device : DeviceId) (ks : List Key) (p : Place) :
    ((s.removeGroups device ks).installed.get? p = if p.1 = device ∧ p.2 ∈ ks then none else s.installed.get? p) ∧
      (s.removeGroups device ks).requested.get? p = if p.1 = device ∧ p.2 ∈ ks then none else s.requested.get? p := by
  induction ks generalizing s with
  | nil => simp [removeGroups]
  | cons k ks ih =>
    obtain ⟨hi, hr⟩ := ih (s.removeGroup device k)
    obtain ⟨hi', hr'⟩ := s.get?_removeGroup device k p
    have hstep : s.removeGroups device (k :: ks) = (s.removeGroup device k).removeGroups device ks := rfl
    have hp : p = (device, k) ↔ p.1 = device ∧ p.2 = k := Prod.ext_iff
    rw [hstep, hi, hr, hi', hr']
    simp only [hp, List.mem_cons]
    by_cases h1 : p.1 = device <;> by_cases h2 : p.2 = k <;> simp [h1, h2]

theorem rest_removeGroups (s : Switch) (device : DeviceId) (ks : List Key) :
    (s.removeGroups device ks).isAutomatic = s.isAutomatic ∧
      ∀ e ∈ (s.removeGroups device ks).events, e ∈ s.events ∨ e.key ∈ ks := by
  induction ks generalizing s with
  | nil => exact ⟨rfl, fun e he => Or.inl he⟩
  | cons k ks ih =>
    obtain ⟨ha, he⟩ := ih (s.removeGroup device k)
    have hone : (s.removeGroup device k).isAutomatic = s.isAutomatic ∧
        ∀ e ∈ (s.removeGroup device k).events, e ∈ s.events ∨ e.key = k := by
      dsimp only [removeGroup]
      split_ifs
      · refine ⟨rfl, fun e he => ?_⟩
        rcases List.mem_append.1 he with he | he
        · exact Or.inl he
        · exact Or.inr (congrArg Event.key (List.mem_singleton.1 he))
      · exact ⟨rfl, fun e he => Or.inl he⟩
    refine ⟨ha.trans hone.1, fun e hmem => ?_⟩
    rcases he e hmem with h | h
    · rcases hone.2 e h with h | hk
      · exact Or.inl h
      · exact Or.inr (List.mem_cons.2 (Or.inl hk))
    · exact Or.inr (List.mem_cons_of_mem k h)

theorem stands_removeGroups_iff {s : Switch} {device : DeviceId} {ks : List Key} {p : Place} :
    (s.removeGroups device ks).Stands p ↔ s.Stands p ∧ ¬(p.1 = device ∧ p.2 ∈ ks) := by
  rw [Stands, Stands, (s.get?_removeGroups device ks p).1]
  split_ifs with hp <;> simp [hp]

theorem holds_removeGroups_iff {s : Switch} {device : DeviceId} {ks : List Key} {p : Place} :
    (s.removeGroups device ks).Holds p ↔ s.Holds p ∧ ¬(p.1 = device ∧ p.2 ∈ ks) := by
  rw [Holds, Holds, (s.get?_removeGroups device ks p).2]
  split_ifs with hp <;> simp [hp]

theorem knows_removeGroups_iff {s : Switch} {device : DeviceId} {ks : List Key} {p : Place} :
    (s.removeGroups device ks).Knows p ↔ s.Knows p ∧ ¬(p.1 = device ∧ p.2 ∈ ks) := by
  rw [Knows, Knows, stands_removeGroups_iff, holds_removeGroups_iff, or_and_right]

/-! ## What was asked for -/

/-- the keys of the groups that were asked for, in order -/
def sent (s : Switch) : List Key :=
  s.ops.filterMap fun
    | .addGroup d => some d.key
    | _ => none

theorem ops_addGroup (s : Switch) (d : Descriptor) : (s.addGroup d).ops = s.ops ++ [.addGroup d] := by
  dsimp only [Switch.addGroup]
  split_ifs <;> rfl

theorem ops_editBuckets (s : Switch) (device : DeviceId) (k : Key) (f : List Bucket → List Bucket) :
    (s.editBuckets device k f).ops = s.ops := by
  unfold editBuckets
  split <;> rfl

theorem ops_removeGroup (s : Switch) (device : DeviceId) (k : Key) :
    (s.removeGroup device k).ops = s.ops ++ [.removeGroup k] := by
  dsimp only [Switch.removeGroup]
  split_ifs <;> rfl

theorem ops_removeGroups (s : Switch) (device : DeviceId) (ks : List Key) :
    (s.removeGroups device ks).ops = s.ops ++ ks.map .removeGroup := by
  induction ks generalizing s with
  | nil => simp [removeGroups]
  | cons k ks ih =>
    have hstep : s.removeGroups device (k :: ks) = (s.removeGroup device k).removeGroups device ks := rfl
    rw [hstep, ih, ops_removeGroup]
    simp

/-- the switch asks itself for nothing -/
theorem ops_move (s : Switch) (m : SwitchMove) : (s.move m).ops = s.ops := by
  obtain ⟨installed, requested, events, he⟩ := s.move_eq m
  rw [he]

theorem sent_addGroup (s : Switch) (d : Descriptor) : (s.addGroup d).sent = s.sent ++ [d.key] := by
  simp [sent, ops_addGroup]

theorem sent_move (s : Switch) (m : SwitchMove) : (s.move m).sent = s.sent := by
  rw [sent, ops_move, sent]

end Switch

end FlowGroups
