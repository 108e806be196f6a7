/-
Parts of registries and trackers. The part of a tracker under some keys behaves like a tracker of its own: an operation
under one of these keys does to the part what it does to the tracker, and one under another key leaves the part alone.
Only the numbers differ, since ids and generations are counted for all keys together (`Tracker.Mirrors`).

- `Mirrors.advance`, `Mirrors.takeObjective`, `Mirrors.expire`: what is handed out or given up is the same.
- `Mirrors.registerAll_mine`, `Mirrors.registerAll_other`: what is registered elsewhere only skips numbers.
- `Mirrors.pendingKeys`: the keys that anything waits for come in the same order.
-/
import Mathlib.Data.List.Sort
import Mathlib.Order.Monotone.Basic
import FlowGroups.Proofs.Progress
import FlowGroups.Proofs.Release

namespace FlowGroups

/-! ## Parts of a registry -/

namespace Registry

variable {κ α β : Type} {p : κ → Bool} {r : Registry κ α}

/-- the entries under some keys -/
def restrict (p : κ → Bool) (r : Registry κ α) : Registry κ α where
  entries := r.entries.filter fun e => p e.1
  nodup := r.nodup.sublist (List.filter_sublist.map _)

/-- every value is replaced, and the keys stay -/
def map (f : α → β) (r : Registry κ α) : Registry κ β where
  entries := r.entries.map fun e => (e.1, f e.2)
  nodup := by simpa [Function.comp_def] using r.nodup

theorem restrict_filterMap (f : κ → α → Option α) : (r.filterMap f).restrict p = (r.restrict p).filterMap f := by
  apply ext
  simp only [restrict, filterMap, List.filter_filterMap, List.filterMap_filter]
  refine List.filterMap_congr fun e _ => ?_
  cases f e.1 e.2 <;> cases hp : p e.1 <;> simp [hp]

theorem map_filterMap {f : α → β} {g : κ → α → Option α} {g' : κ → β → Option β}
    (h : ∀ k v, g' k (f v) = (g k v).map f) : (r.filterMap g).map f = (r.map f).filterMap g' := by
  apply ext
  simp only [map, filterMap, List.map_filterMap, List.filterMap_map]
  refine List.filterMap_congr fun e _ => ?_
  simp only [Function.comp_apply, h]
  cases g e.1 e.2 <;> rfl

variable [DecidableEq κ]

theorem get?_restrict {k : κ} (hk : p k = true) : (r.restrict p).get? k = r.get? k := by
  simp only [get?, restrict, List.find?_filter]
  congr 2
  funext e
  by_cases he : e.1 = k
  · simp [he, hk]
  · simp [he]

theorem of_get?_restrict {k : κ} {v : α} (h : (r.restrict p).get? k = some v) : p k = true ∧ r.get? k = some v := by
  obtain ⟨hm, hk⟩ := List.mem_filter.1 (mem_entries_iff.2 h)
  exact ⟨hk, mem_entries_iff.1 hm⟩

theorem restrict_erase (k : κ) : (r.erase k).restrict p = if p k then (r.restrict p).erase k else r.restrict p := by
  apply ext
  by_cases hk : p k = true
  · simp only [hk, if_true, erase, restrict, List.filter_filter]
    refine List.filter_congr fun e _ => ?_
    rw [Bool.and_comm]
  · simp only [hk, erase, restrict, List.filter_filter]
    refine List.filter_congr fun e _ => ?_
    by_cases he : e.1 = k
    · simp [he, hk]
    · simp [he]

theorem restrict_insert (k : κ) (v : α) :
    (r.insert k v).restrict p = if p k then (r.restrict p).insert k v else r.restrict p := by
  have herase := congrArg entries (restrict_erase (p := p) (r := r) k)
  apply ext
  by_cases hk : p k = true
  · rw [if_pos hk] at herase ⊢
    simp only [restrict, insert, List.filter_append] at herase ⊢
    rw [herase]
    simp [hk]
  · rw [if_neg hk] at herase ⊢
    simp only [restrict, insert, List.filter_append] at herase ⊢
    rw [herase]
    simp [hk]

theorem filterMap_eq_self {f : κ → α → Option α} (h : ∀ k v, r.get? k = some v → f k v = some v) :
    r.filterMap f = r := by
  apply ext
  have hall : ∀ e ∈ r.entries, (f e.1 e.2).map (fun v => (e.1, v)) = some e := fun e he => by
    rw [h e.1 e.2 (mem_entries_iff.1 he)]
    rfl
  exact (List.filterMap_congr hall).trans List.filterMap_some

theorem get?_map (f : α → β) (k : κ) : (r.map f).get? k = (r.get? k).map f := by
  simp [get?, map, List.find?_map, Function.comp_def]

theorem map_congr {f g : α → β} (h : ∀ k v, r.get? k = some v → f v = g v) : r.map f = r.map g := by
  apply ext
  refine List.map_congr_left fun e he => ?_
  rw [h e.1 e.2 (mem_entries_iff.1 he)]

theorem map_erase (f : α → β) (k : κ) : (r.erase k).map f = (r.map f).erase k := by
  apply ext
  simp [map, erase, List.filter_map, Function.comp_def]

theorem map_insert (f : α → β) (k : κ) (v : α) : (r.insert k v).map f = (r.map f).insert k (f v) := by
  have herase := congrArg entries (map_erase (r := r) f k)
  apply ext
  simp only [map, insert, List.map_append] at herase ⊢
  rw [herase]
  rfl

end Registry

/-! ## Keys in order -/

namespace Key

instance : Std.Irrefl fun j k : Key => j < k := ⟨fun k => List.lt_irrefl k.octets⟩

instance : Std.Antisymm fun j k : Key => j < k :=
  ⟨fun j _ hjk hkj => absurd (List.lt_trans hjk hkj) (List.lt_irrefl j.octets)⟩

theorem lt_of_not_lt {j k : Key} (h : ¬k < j) (hne : k ≠ j) : j < k := by
  have hle : j.octets ≤ k.octets := List.not_lt.1 h
  have hlt : j.octets < k.octets := Std.lt_of_le_of_ne hle fun he => hne (congrArg Key.mk he.symm)
  exact hlt

theorem pairwise_place {js : List Key} (h : js.Pairwise fun i j => i < j) (k : Key) :
    (place k js).Pairwise fun i j => i < j := by
  induction js with
  | nil => exact List.pairwise_singleton _ _
  | cons j js ih =>
    obtain ⟨hj, hjs⟩ := List.pairwise_cons.1 h
    by_cases hlt : k < j
    · rw [place, if_pos hlt]
      refine List.pairwise_cons.2 ⟨fun i hi => ?_, h⟩
      rcases List.mem_cons.1 hi with rfl | hi
      · exact hlt
      · exact List.lt_trans hlt (hj i hi)
    · by_cases heq : k = j
      · rw [place, if_neg hlt, if_pos heq]
        exact h
      · rw [place, if_neg hlt, if_neg heq]
        refine List.pairwise_cons.2 ⟨fun i hi => ?_, ih hjs⟩
        rcases mem_place.1 hi with rfl | hi
        · exact lt_of_not_lt hlt heq
        · exact hj i hi

theorem pairwise_ascending (ks : List Key) : (ascending ks).Pairwise fun i j => i < j := by
  induction ks with
  | nil => exact List.Pairwise.nil
  | cons k ks ih => exact pairwise_place ih k

/-- keys can be left out before they are sorted, or after -/
theorem filter_ascending (p : Key → Bool) (ks : List Key) : (ascending ks).filter p = ascending (ks.filter p) := by
  refine ((pairwise_ascending ks).filter p).eq_of_mem_iff (pairwise_ascending _) fun k => ?_
  rw [List.mem_filter, mem_ascending, mem_ascending, List.mem_filter]

end Key

/-! ## Parts of a tracker -/

/-- the keys of an element: the one of its group, and those it waits for -/
def Element.keys (e : Element) : List Key := e.descriptor.key :: e.waitOn

def Waiting.rename (f : Nat → Nat) (w : Waiting) : Waiting := { w with id := f w.id }

def Registrants.rename (g : Nat → Nat) (rs : Registrants) : Registrants := { rs with generation := g rs.generation }

def Expiry.rename (g : Nat → Nat) (e : Expiry Key) : Expiry Key := { e with generation := g e.generation }

namespace Tracker

/-- what waits under some top-level keys, with all that it waits for -/
def restrict (p : Key → Bool) (t : Tracker) : Tracker :=
  { t with
    waiting := t.waiting.filter fun w => p w.owner
    groups := t.groups.restrict p
    objectives := t.objectives.restrict p
    expiry := ⟨t.expiry.entries.filter fun e => p e.key⟩ }

/-- the ids of the elements and the generations of the objectives are other numbers -/
def rename (f g : Nat → Nat) (t : Tracker) : Tracker :=
  { waiting := t.waiting.map (.rename f)
    groups := t.groups.map (List.map f)
    objectives := t.objectives.map (.rename g)
    expiry := ⟨t.expiry.entries.map (.rename g)⟩
    delay := t.delay
    nextId := f t.nextId
    nextGeneration := g t.nextGeneration }

/-- the keys of an element that waits are all among some keys, or all not -/
def Split (p : Key → Bool) (t : Tracker) : Prop := ∀ w ∈ t.waiting, ∀ k ∈ w.element.keys, p k = p w.owner

theorem Split.mono {p : Key → Bool} {t s : Tracker} (h : t.Split p) (hsub : ∀ w ∈ s.waiting, w ∈ t.waiting) :
    s.Split p :=
  fun w hw => h w (hsub w hw)

variable {p : Key → Bool} {f g : Nat → Nat} {t s : Tracker} {k owner : Key} {ids : List Nat} {e : Element}

/-! ### Registering -/

theorem restrict_await (id : Nat) (r : Registry Key (List Nat)) (k : Key) :
    (await id r k).restrict p = if p k then await id (r.restrict p) k else r.restrict p := by
  simp only [await, Registry.restrict_insert]
  by_cases hk : p k = true
  · simp [hk, Registry.get?_restrict hk]
  · simp [hk]

theorem restrict_foldl_await {id : Nat} {b : Bool} {ks : List Key} (h : ∀ k ∈ ks, p k = b)
    (r : Registry Key (List Nat)) :
    (ks.foldl (await id) r).restrict p = if b then ks.foldl (await id) (r.restrict p) else r.restrict p := by
  induction ks generalizing r with
  | nil => simp
  | cons k ks ih =>
    rw [List.foldl_cons, ih (fun j hj => h j (List.mem_cons_of_mem k hj)), restrict_await, h k List.mem_cons_self]
    cases b <;> rfl

theorem restrict_enlist (h : ∀ k ∈ e.waitOn, p k = p owner) :
    (t.enlist e owner).restrict p =
      if p owner then (t.restrict p).enlist e owner else { t.restrict p with nextId := t.nextId + 1 } := by
  simp only [enlist, restrict, restrict_foldl_await h, List.filter_append]
  cases ho : p owner <;> simp [ho]

theorem map_await (hf : f.Injective) (id : Nat) (r : Registry Key (List Nat)) (k : Key) :
    (await id r k).map (List.map f) = await (f id) (r.map (List.map f)) k := by
  simp only [await, Registry.map_insert, Registry.get?_map]
  congr 1
  have hd : (Option.map (List.map f) (r.get? k)).getD [] = ((r.get? k).getD []).map f := by
    cases r.get? k <;> rfl
  rw [hd]
  split_ifs with hm hn hn
  · rfl
  · exact absurd (List.mem_map_of_mem hm) hn
  · exact absurd ((List.mem_map_of_injective hf).1 hn) hm
  · simp

theorem rename_enlist (hf : f.Injective) (hn : f (t.nextId + 1) = f t.nextId + 1) (e : Element) (owner : Key) :
    (t.enlist e owner).rename f g = (t.rename f g).enlist e owner := by
  have hfold : ∀ (ks : List Key) (r : Registry Key (List Nat)), (ks.foldl (await t.nextId) r).map (List.map f) =
      ks.foldl (await (f t.nextId)) (r.map (List.map f)) := by
    intro ks
    induction ks with
    | nil => exact fun r => rfl
    | cons k ks ih =>
      intro r
      rw [List.foldl_cons, ih, map_await hf]
      rfl
  simp only [enlist, rename, hn, hfold, List.map_append]
  rfl

/-! ### Resolving -/

theorem restrict_discharge (k : Key) :
    (t.discharge k).restrict p = if p k then (t.restrict p).discharge k else t.restrict p := by
  simp only [discharge, restrict, Registry.restrict_erase]
  split_ifs <;> rfl

theorem rename_discharge (k : Key) : (t.discharge k).rename f g = (t.rename f g).discharge k := by
  simp only [discharge, rename, Registry.map_erase]

/-- an element of the part does not wait for a key outside of it -/
theorem Split.not_mem (hs : t.Split p) (hc : t.Consistent) (hk : t.groups.get? k = some ids) {w : Waiting}
    (hw : w ∈ t.waiting) (hne : p w.owner ≠ p k) : w.id ∉ ids := by
  intro hid
  have ha : w.id ∈ t.awaiting k := by
    rw [awaiting, hk]
    exact hid
  exact hne (hs w hw k (List.mem_cons_of_mem _ (hc.mem_waitOn hw ha))).symm

theorem restrict_advance (hc : t.Consistent) (hs : t.Split p) (hk : t.groups.get? k = some ids) :
    (t.advance k ids).restrict p = if p k then (t.restrict p).advance k ids else t.restrict p := by
  have hcomm : ((t.waiting.map (countDown ids)).filter fun w => !isReady ids w).filter (fun w => p w.owner) =
      ((t.waiting.filter fun w => p w.owner).map (countDown ids)).filter fun w => !isReady ids w := by
    simp [List.filter_map, List.filter_filter, Function.comp_def, Bool.and_comm]
  cases hp : p k with
  | true => simp [advance, restrict, hcomm, Registry.restrict_erase, hp]
  | false =>
    have hfree : ∀ w ∈ t.waiting.filter fun w => p w.owner, countDown ids w = w ∧ isReady ids w = false := by
      intro w hw
      obtain ⟨hw, ho⟩ := List.mem_filter.1 hw
      exact isReady_of_not_mem (hs.not_mem hc hk hw (by simp [ho, hp]))
    have hmap : (t.waiting.filter fun w => p w.owner).map (countDown ids) = t.waiting.filter fun w => p w.owner :=
      (List.map_congr_left fun w hw => (hfree w hw).1).trans (List.map_id _)
    have hall : (t.waiting.filter fun w => p w.owner).filter (fun w => !isReady ids w) =
        t.waiting.filter fun w => p w.owner :=
      List.filter_eq_self.2 fun w hw => by simp [(hfree w hw).2]
    simp only [advance, restrict, hcomm, hmap, hall, Registry.restrict_erase, hp]
    rfl

theorem restrict_readyAfter (hc : t.Consistent) (hs : t.Split p) (hk : t.groups.get? k = some ids) :
    (t.readyAfter ids).filter (fun e => p e.descriptor.key) = if p k then (t.restrict p).readyAfter ids else [] := by
  have hside : ∀ w ∈ t.waiting, p w.element.descriptor.key = p w.owner := fun w hw => hs w hw _ List.mem_cons_self
  have hcomm : (t.readyAfter ids).filter (fun e => p e.descriptor.key) = (t.restrict p).readyAfter ids := by
    simp only [readyAfter, restrict, List.filter_map, List.filter_filter, List.map_map, Function.comp_def,
      element_countDown]
    congr 1
    refine List.filter_congr fun w hw => ?_
    rw [hside w hw, Bool.and_comm]
  rw [hcomm]
  split_ifs with hp
  · rfl
  · simp only [readyAfter, restrict, List.map_eq_nil_iff, List.filter_eq_nil_iff, List.mem_map, List.mem_filter]
    rintro _ ⟨w, ⟨hw, ho⟩, rfl⟩
    have hfree := isReady_of_not_mem (hs.not_mem hc hk hw (by simp [ho, hp]))
    simp [hfree.1, hfree.2]

theorem countDown_rename (hf : f.Injective) (w : Waiting) :
    countDown (ids.map f) (w.rename f) = (countDown ids w).rename f := by
  simp only [countDown, Waiting.rename, List.mem_map_of_injective hf]
  split <;> rfl

theorem isReady_rename (hf : f.Injective) (w : Waiting) : isReady (ids.map f) (w.rename f) = isReady ids w := by
  simp only [isReady, Waiting.rename, List.mem_map_of_injective hf]

theorem rename_advance (hf : f.Injective) (k : Key) (ids : List Nat) :
    (t.advance k ids).rename f g = (t.rename f g).advance k (ids.map f) ∧
      t.readyAfter ids = (t.rename f g).readyAfter (ids.map f) := by
  have hmap : (t.waiting.map (.rename f)).map (countDown (ids.map f)) =
      (t.waiting.map (countDown ids)).map (.rename f) := by
    simp only [List.map_map, Function.comp_def, countDown_rename hf]
  refine ⟨?_, ?_⟩
  · simp only [advance, rename, hmap, Registry.map_erase, List.filter_map, Function.comp_def, isReady_rename hf]
  · simp only [readyAfter, rename, hmap, List.filter_map, Function.comp_def, isReady_rename hf, List.map_map]
    rfl

/-! ### Giving up -/

theorem restrict_purge (hc : t.Consistent) (hs : t.Split p) (owner : Key) :
    (t.purge owner).restrict p = if p owner then (t.restrict p).purge owner else t.restrict p := by
  have hwaiting : (t.waiting.filter fun w => w.owner ≠ owner).filter (fun w => p w.owner) =
      (t.waiting.filter fun w => p w.owner).filter fun w => w.owner ≠ owner := by
    simp only [List.filter_filter, Bool.and_comm]
  cases ho : p owner with
  | true =>
    have hdropped : (t.waiting.filter fun w => p w.owner).filter (fun w => w.owner = owner) =
        t.waiting.filter fun w => w.owner = owner := by
      rw [List.filter_filter]
      refine List.filter_congr fun w _ => ?_
      by_cases hw : w.owner = owner <;> simp [hw, ho]
    simp only [purge, restrict, Registry.restrict_filterMap, hwaiting, hdropped, if_true]
  | false =>
    have hstays : (t.waiting.filter fun w => p w.owner).filter (fun w => w.owner ≠ owner) =
        t.waiting.filter fun w => p w.owner := by
      rw [List.filter_eq_self]
      intro w hw
      rw [decide_eq_true_eq]
      rintro rfl
      simp [ho] at hw
    -- what waits under a key outside of the part is in no list of a key of the part
    have hgroups : (t.groups.restrict p).filterMap (strike (t.waiting.filter fun w => w.owner = owner)) =
        t.groups.restrict p := by
      refine Registry.filterMap_eq_self fun k ids hk => ?_
      obtain ⟨hp, hk⟩ := Registry.of_get?_restrict hk
      have hall : (ids.filter fun id => !(t.waiting.filter fun w => w.owner = owner).any fun w =>
          w.id = id ∧ k ∈ w.element.waitOn) = ids := by
        rw [List.filter_eq_self]
        intro id _
        simp only [Bool.not_eq_true', List.any_eq_false, List.mem_filter, decide_eq_true_eq, not_and]
        rintro w ⟨hw, rfl⟩ - hwait
        have hside := hs w hw k (List.mem_cons_of_mem _ hwait)
        simp [hp, ho] at hside
      simp only [strike, hall, if_neg (hc.awaited k ids hk)]
    simp only [purge, restrict, Registry.restrict_filterMap, hwaiting, hstays, hgroups]
    rfl

theorem strike_rename (hf : f.Injective) (dropped : List Waiting) (k : Key) (ids : List Nat) :
    strike (dropped.map (Waiting.rename f)) k (ids.map f) = (strike dropped k ids).map (List.map f) := by
  have hleft : ((ids.map f).filter fun id =>
      !(dropped.map (Waiting.rename f)).any fun w => w.id = id ∧ k ∈ w.element.waitOn) =
      (ids.filter fun id => !dropped.any fun w => w.id = id ∧ k ∈ w.element.waitOn).map f := by
    simp [List.filter_map, List.any_map, Function.comp_def, Waiting.rename, hf.eq_iff]
    rfl
  simp only [strike, hleft, List.map_eq_nil_iff]
  split_ifs <;> rfl

theorem rename_purge (hf : f.Injective) (owner : Key) : (t.purge owner).rename f g = (t.rename f g).purge owner := by
  have hdropped : (t.waiting.map (Waiting.rename f)).filter (fun w => w.owner = owner) =
      (t.waiting.filter fun w => w.owner = owner).map (Waiting.rename f) := by
    rw [List.filter_map]
    rfl
  simp only [purge, rename, hdropped, Registry.map_filterMap (strike_rename hf _), List.filter_map]
  rfl

theorem restrict_retain (k : Key) (rs : Registrants) (left : List Registrant) :
    (t.retain k rs left).restrict p = if p k then (t.restrict p).retain k rs left else t.restrict p := by
  simp only [retain, restrict, Registry.restrict_insert]
  split_ifs <;> rfl

theorem rename_retain (k : Key) (rs : Registrants) (left : List Registrant) :
    (t.retain k rs left).rename f g = (t.rename f g).retain k (rs.rename g) left := by
  simp only [retain, rename, Registry.map_insert]
  rfl

/-! ## A tracker beside a part of it -/

/-- The part of `t` under some keys is `s`, but for the numbers: `f` and `g` say which ids and generations of `t` stand
for those of `s`, and the next ones of `s` stand for the next ones of `t`. -/
structure Mirrors (p : Key → Bool) (f g : Nat → Nat) (t s : Tracker) : Prop where
  ids : StrictMono f
  generations : StrictMono g
  nextIds : ∀ i, f (s.nextId + i) = t.nextId + i
  nextGenerations : ∀ i, g (s.nextGeneration + i) = t.nextGeneration + i
  same : t.restrict p = s.rename f g

namespace Mirrors

theorem nextId (h : Mirrors p f g t s) : f s.nextId = t.nextId := h.nextIds 0

theorem nextGeneration (h : Mirrors p f g t s) : g s.nextGeneration = t.nextGeneration := h.nextGenerations 0

theorem waiting (h : Mirrors p f g t s) : t.waiting.filter (fun w => p w.owner) = s.waiting.map (Waiting.rename f) :=
  congrArg Tracker.waiting h.same

theorem groups (h : Mirrors p f g t s) (hk : p k = true) :
    t.groups.get? k = (s.groups.get? k).map (List.map f) := by
  have hsame : t.groups.restrict p = s.groups.map (List.map f) := congrArg Tracker.groups h.same
  rw [← Registry.get?_restrict hk, hsame, Registry.get?_map]

theorem objectives (h : Mirrors p f g t s) (hk : p k = true) :
    t.objectives.get? k = (s.objectives.get? k).map (Registrants.rename g) := by
  have hsame : t.objectives.restrict p = s.objectives.map (Registrants.rename g) := congrArg Tracker.objectives h.same
  rw [← Registry.get?_restrict hk, hsame, Registry.get?_map]

/-- the key of something in the part is one of its keys -/
theorem of_groups (h : Mirrors p f g t s) (hk : s.groups.get? k = some ids) : p k = true := by
  have hsame : t.groups.restrict p = s.groups.map (List.map f) := congrArg Tracker.groups h.same
  have hfound : (s.groups.map (List.map f)).get? k = some (ids.map f) := by
    rw [Registry.get?_map, hk]
    rfl
  rw [← hsame] at hfound
  exact (Registry.of_get?_restrict hfound).1

theorem of_objectives (h : Mirrors p f g t s) {rs : Registrants} (hk : s.objectives.get? k = some rs) : p k = true := by
  have hsame : t.objectives.restrict p = s.objectives.map (Registrants.rename g) := congrArg Tracker.objectives h.same
  have hfound : (s.objectives.map (Registrants.rename g)).get? k = some (rs.rename g) := by
    rw [Registry.get?_map, hk]
    rfl
  rw [← hsame] at hfound
  exact (Registry.of_get?_restrict hfound).1

theorem get_groups (h : Mirrors p f g t s) (hk : s.groups.get? k = some ids) :
    t.groups.get? k = some (ids.map f) := by
  rw [h.groups (h.of_groups hk), hk]
  rfl

theorem get_objectives (h : Mirrors p f g t s) {rs : Registrants} (hk : s.objectives.get? k = some rs) :
    t.objectives.get? k = some (rs.rename g) := by
  rw [h.objectives (h.of_objectives hk), hk]
  rfl

theorem expiry (h : Mirrors p f g t s) :
    t.expiry.entries.filter (fun e => p e.key) = s.expiry.entries.map (Expiry.rename g) :=
  congrArg (fun t : Tracker => t.expiry.entries) h.same

theorem mem_expiry (h : Mirrors p f g t s) {e : Expiry Key} (he : e ∈ s.expiry.entries) :
    e.rename g ∈ t.expiry.entries := by
  have hmem : e.rename g ∈ t.expiry.entries.filter fun e => p e.key := by
    rw [h.expiry]
    exact List.mem_map_of_mem he
  exact List.mem_of_mem_filter hmem

theorem discharge (h : Mirrors p f g t s) (k : Key) :
    Mirrors p f g (t.discharge k) (if p k then s.discharge k else s) := by
  have hsame := restrict_discharge (p := p) (t := t) k
  rw [h.same, ← rename_discharge] at hsame
  split_ifs at hsame ⊢
  · exact { h with same := hsame }
  · exact { h with same := hsame }

theorem purge (h : Mirrors p f g t s) (hc : t.Consistent) (hs : t.Split p) (owner : Key) :
    Mirrors p f g (t.purge owner) (if p owner then s.purge owner else s) := by
  have hsame := restrict_purge hc hs owner
  rw [h.same, ← rename_purge h.ids.injective] at hsame
  split_ifs at hsame ⊢
  · exact { h with same := hsame }
  · exact { h with same := hsame }

theorem retain_mine (h : Mirrors p f g t s) (hk : p k = true) (rs : Registrants) (left : List Registrant) :
    Mirrors p f g (t.retain k (rs.rename g) left) (s.retain k rs left) :=
  { h with same := by rw [restrict_retain, if_pos hk, h.same, rename_retain] }

theorem retain_other (h : Mirrors p f g t s) (hk : p k = false) (rs : Registrants) (left : List Registrant) :
    Mirrors p f g (t.retain k rs left) s :=
  { h with same := by rw [restrict_retain, hk, if_neg Bool.false_ne_true, h.same] }

theorem drop (h : Mirrors p f g t s) (hc : t.Consistent) (hs : t.Split p) (k : Key) :
    Mirrors p f g ((t.discharge k).purge k) (if p k then (s.discharge k).purge k else s) := by
  have hdischarge := h.discharge k
  have hpurge := hdischarge.purge (hc.congr rfl rfl rfl) hs k
  split_ifs at hpurge ⊢ <;> exact hpurge

/-- the elements that become ready under a key of the part are the same, and those under another are not of the part -/
theorem advance (h : Mirrors p f g t s) (hc : t.Consistent) (hs : t.Split p) (hk : t.groups.get? k = some ids) :
    if p k then
      ∃ js, s.groups.get? k = some js ∧ Mirrors p f g (t.advance k ids) (s.advance k js) ∧
        (t.readyAfter ids).filter (fun e => p e.descriptor.key) = s.readyAfter js
    else Mirrors p f g (t.advance k ids) s ∧ (t.readyAfter ids).filter (fun e => p e.descriptor.key) = [] := by
  have hsame := restrict_advance hc hs hk
  have hready := restrict_readyAfter hc hs hk
  split_ifs at hsame hready ⊢ with hp
  · obtain ⟨js, hjs, rfl⟩ := Option.map_eq_some_iff.1 ((h.groups hp).symm.trans hk)
    obtain ⟨hrename, hrenamed⟩ := rename_advance (t := s) (g := g) h.ids.injective k js
    refine ⟨js, hjs, { h with same := ?_ }, ?_⟩
    · calc (t.advance k (js.map f)).restrict p = (t.restrict p).advance k (js.map f) := hsame
        _ = (s.rename f g).advance k (js.map f) := by rw [h.same]
        _ = (s.advance k js).rename f g := hrename.symm
    · calc (t.readyAfter (js.map f)).filter (fun e => p e.descriptor.key)
          = (t.restrict p).readyAfter (js.map f) := hready
        _ = (s.rename f g).readyAfter (js.map f) := by rw [h.same]
        _ = s.readyAfter js := hrenamed.symm
  · exact ⟨{ h with same := hsame.trans h.same }, hready⟩

/-! ### Taking out an objective -/

theorem takeAt_mine (h : Mirrors p f g t s) (hc : t.Consistent) (hs : t.Split p) (n : UInt32) (hk : p k = true) :
    Mirrors p f g (t.takeAt n k).1 (s.takeAt n k).1 ∧ (t.takeAt n k).2 = (s.takeAt n k).2 := by
  have hfound := h.objectives hk
  cases hrs : s.objectives.get? k with
  | none =>
    rw [hrs] at hfound
    rw [takeAt_of_none hfound, takeAt_of_none hrs]
    exact ⟨h, rfl⟩
  | some rs =>
    rw [hrs] at hfound
    have htake : t.takeAt n k = (if rs.list.filter (fun r => r.objective.id ≠ n) = [] then (t.discharge k).purge k
        else t.retain k (rs.rename g) (rs.list.filter fun r => r.objective.id ≠ n),
        rs.list.filter fun r => r.objective.id = n) := takeAt_of_some hfound
    rw [htake, takeAt_of_some hrs]
    refine ⟨?_, rfl⟩
    have hdrop := h.drop hc hs k
    rw [if_pos hk] at hdrop
    by_cases hleft : rs.list.filter (fun r => r.objective.id ≠ n) = []
    · simp only [if_pos hleft]
      exact hdrop
    · simp only [if_neg hleft]
      exact h.retain_mine hk rs _

theorem takeAt_other (h : Mirrors p f g t s) (hc : t.Consistent) (hs : t.Split p) (n : UInt32) (hk : p k = false) :
    Mirrors p f g (t.takeAt n k).1 s := by
  cases hrs : t.objectives.get? k with
  | none =>
    rw [takeAt_of_none hrs]
    exact h
  | some rs =>
    rw [takeAt_of_some hrs]
    have hdrop := h.drop hc hs k
    rw [hk] at hdrop
    by_cases hleft : rs.list.filter (fun r => r.objective.id ≠ n) = []
    · rw [if_pos hleft]
      exact hdrop
    · rw [if_neg hleft]
      exact h.retain_other hk rs _

/-- an objective is taken out wherever it is registered, and keys outside of the part do not matter to the part -/
theorem takeFrom (h : Mirrors p f g t s) (hc : t.Consistent) (hs : t.Split p) (n : UInt32) (ks : List Key) :
    Mirrors p f g (t.takeFrom n ks).1 (s.takeFrom n (ks.filter p)).1 ∧
      ((∀ k ∈ ks, p k = true) → (t.takeFrom n ks).2 = (s.takeFrom n (ks.filter p)).2) := by
  induction ks generalizing t s with
  | nil => exact ⟨h, fun _ => rfl⟩
  | cons k ks ih =>
    have hkept : (t.takeAt n k).1.Consistent ∧ (t.takeAt n k).1.Split p := by
      have hc' : (t.discharge k).Consistent := hc.congr rfl rfl rfl
      rcases takeAt_cases t n k with he | ⟨rs, -, -, ⟨-, he⟩ | ⟨-, he⟩⟩ <;> rw [he]
      · exact ⟨hc, hs⟩
      · exact ⟨hc'.purge k, hs.mono fun w hw => (mem_waiting_purge.1 hw).1⟩
      · exact ⟨hc.congr rfl rfl rfl, hs⟩
    by_cases hk : p k = true
    · obtain ⟨hmirrors, htaken⟩ := h.takeAt_mine hc hs n hk
      obtain ⟨hrest, hothers⟩ := ih hmirrors hkept.1 hkept.2
      rw [List.filter_cons_of_pos hk]
      refine ⟨hrest, fun hall => ?_⟩
      simp only [Tracker.takeFrom, htaken, hothers fun j hj => hall j (List.mem_cons_of_mem k hj)]
    · obtain ⟨hrest, -⟩ := ih (h.takeAt_other hc hs n (by simpa using hk)) hkept.1 hkept.2
      rw [List.filter_cons_of_neg hk]
      exact ⟨hrest, fun hall => absurd (hall k List.mem_cons_self) hk⟩

theorem keysOf (h : Mirrors p f g t s) (n : UInt32) : s.keysOf n = (t.keysOf n).filter p := by
  have hrename : (s.rename f g).keysOf n = s.keysOf n := by
    simp only [Tracker.keysOf, Tracker.rename, Registry.map, List.filter_map, List.map_map]
    rfl
  have hrestrict : (t.restrict p).keysOf n = (t.keysOf n).filter p := by
    simp only [Tracker.keysOf, Tracker.restrict, Registry.restrict, List.filter_map, List.filter_filter]
    congr 1
    exact List.filter_congr fun e _ => Bool.and_comm _ _
  calc s.keysOf n = (s.rename f g).keysOf n := hrename.symm
    _ = (t.restrict p).keysOf n := by rw [h.same]
    _ = (t.keysOf n).filter p := hrestrict

theorem takeObjective (h : Mirrors p f g t s) (hc : t.Consistent) (hs : t.Split p) {n : UInt32} {b : Bool}
    (hr : ∀ k r, t.Registered k r → r.objective.id = n → p k = b) :
    if b then
      Mirrors p f g (t.takeObjective n).1 (s.takeObjective n).1 ∧ (t.takeObjective n).2 = (s.takeObjective n).2
    else Mirrors p f g (t.takeObjective n).1 s := by
  have hkeys : ∀ k ∈ t.keysOf n, p k = b := by
    intro k hk
    obtain ⟨r, hreg, hn⟩ := mem_keysOf.1 hk
    exact hr k r hreg hn
  obtain ⟨hmirrors, htaken⟩ := h.takeFrom hc hs n (t.keysOf n)
  cases b with
  | true =>
    rw [← h.keysOf n] at hmirrors htaken
    exact ⟨hmirrors, htaken hkeys⟩
  | false =>
    have hnone : (t.keysOf n).filter p = [] := List.filter_eq_nil_iff.2 fun k hk => by simp [hkeys k hk]
    rw [hnone] at hmirrors
    exact hmirrors

/-! ### Expiry -/

theorem expireEntry_mine (h : Mirrors p f g t s) (hc : t.Consistent) (hs : t.Split p) {e : Expiry Key}
    (hk : p e.key = true) :
    Mirrors p f g (t.expireEntry (e.rename g)).1 (s.expireEntry e).1 ∧
      (t.expireEntry (e.rename g)).2 = (s.expireEntry e).2 := by
  have hfound := h.objectives hk
  have hdrop := h.drop hc hs e.key
  rw [if_pos hk] at hdrop
  cases hrs : s.objectives.get? e.key with
  | none =>
    rw [hrs] at hfound
    have hnone : t.objectives.get? (e.rename g).key = none := hfound
    simp only [expireEntry, hnone, hrs]
    exact ⟨h, trivial⟩
  | some rs =>
    rw [hrs] at hfound
    have hsome : t.objectives.get? (e.rename g).key = some (rs.rename g) := hfound
    by_cases hg : rs.generation = e.generation
    · have hg' : (rs.rename g).generation = (e.rename g).generation := congrArg g hg
      simp only [expireEntry, hsome, hrs, if_pos hg, if_pos hg']
      exact ⟨hdrop, rfl⟩
    · have hg' : (rs.rename g).generation ≠ (e.rename g).generation := fun he => hg (h.generations.injective he)
      simp only [expireEntry, hsome, hrs, if_neg hg, if_neg hg']
      exact ⟨h, trivial⟩

theorem expireEntry_other (h : Mirrors p f g t s) (hc : t.Consistent) (hs : t.Split p) {e : Expiry Key}
    (hk : p e.key = false) :
    Mirrors p f g (t.expireEntry e).1 s ∧ (t.expireEntry e).2.toList.filter (fun given => p given.1) = [] := by
  have hdrop := h.drop hc hs e.key
  rw [hk] at hdrop
  rcases expireEntry_cases t e with ⟨rs, -, he⟩ | he <;> rw [he]
  · exact ⟨hdrop, by simp [hk]⟩
  · exact ⟨h, rfl⟩

theorem given_expireEntry {e : Expiry Key} {given : Key × List Registrant} (h : given ∈ (s.expireEntry e).2.toList) :
    given.1 = e.key := by
  rcases expireEntry_cases s e with ⟨rs, -, he⟩ | he <;> rw [he] at h
  · rw [List.mem_singleton.1 h]
  · cases h

/-- entries of the part come in the same order, with others between them -/
theorem expireEntries (h : Mirrors p f g t s) (hc : t.Consistent) (hs : t.Split p) {es es' : List (Expiry Key)}
    (hes : es.filter (fun e => p e.key) = es'.map (Expiry.rename g)) :
    Mirrors p f g (t.expireEntries es).1 (s.expireEntries es').1 ∧
      (t.expireEntries es).2.filter (fun given => p given.1) = (s.expireEntries es').2 := by
  induction es generalizing t s es' with
  | nil =>
    rw [List.filter_nil, eq_comm, List.map_eq_nil_iff] at hes
    rw [hes]
    exact ⟨h, rfl⟩
  | cons e es ih =>
    have hkept : (t.expireEntry e).1.Consistent ∧ (t.expireEntry e).1.Split p := by
      have hc' : (t.discharge e.key).Consistent := hc.congr rfl rfl rfl
      rcases expireEntry_cases t e with ⟨rs, -, he⟩ | he <;> rw [he]
      · exact ⟨hc'.purge e.key, hs.mono fun w hw => (mem_waiting_purge.1 hw).1⟩
      · exact ⟨hc, hs⟩
    by_cases hk : p e.key = true
    · rw [List.filter_cons, if_pos hk] at hes
      obtain ⟨e', es', rfl⟩ : ∃ e' es'', es' = e' :: es'' := by
        cases es' with
        | nil => cases hes
        | cons e' es' => exact ⟨e', es', rfl⟩
      obtain ⟨rfl, htail⟩ := List.cons.inj hes
      have hk' : p e'.key = true := hk
      obtain ⟨hmirrors, hgiven⟩ := h.expireEntry_mine hc hs hk'
      obtain ⟨hrest, hothers⟩ := ih hmirrors hkept.1 hkept.2 htail
      refine ⟨hrest, ?_⟩
      have hall : ∀ given ∈ (s.expireEntry e').2.toList, p given.1 = true := fun given hmem => by
        rw [given_expireEntry hmem]
        exact hk'
      simp only [Tracker.expireEntries, List.filter_append, hothers, hgiven, List.filter_eq_self.2 hall]
    · rw [List.filter_cons, if_neg hk] at hes
      obtain ⟨hmirrors, hgiven⟩ := h.expireEntry_other hc hs (by simpa using hk)
      obtain ⟨hrest, hothers⟩ := ih hmirrors hkept.1 hkept.2 hes
      refine ⟨hrest, ?_⟩
      simp only [Tracker.expireEntries, List.filter_append, hothers, hgiven, List.nil_append]

theorem ordered (h : Mirrors p f g t s) (ht : t.Timed) :
    s.expiry.entries.Pairwise fun e f => e.deadline ≤ f.deadline := by
  have hsub := ht.ordered.sublist (List.filter_sublist (p := fun e => p e.key))
  rw [h.expiry, List.pairwise_map] at hsub
  exact hsub

theorem past (h : Mirrors p f g t s) (ht : t.Timed) : ∀ e ∈ s.expiry.entries, e.generation < s.nextGeneration := by
  intro e he
  have hbelow := ht.past _ (h.mem_expiry he)
  rw [← h.nextGeneration] at hbelow
  exact h.generations.lt_iff_lt.1 hbelow

/-- the entries due by some time -/
theorem due (h : Mirrors p f g t s) (due : Nat → Bool) :
    (t.expiry.entries.filter fun e => due e.deadline).filter (fun e => p e.key) =
      (s.expiry.entries.filter fun e => due e.deadline).map (Expiry.rename g) := by
  calc (t.expiry.entries.filter fun e => due e.deadline).filter (fun e => p e.key)
      = (t.expiry.entries.filter fun e => p e.key).filter (fun e => due e.deadline) := by
        simp only [List.filter_filter, Bool.and_comm]
    _ = (s.expiry.entries.map (Expiry.rename g)).filter (fun e => due e.deadline) := by rw [h.expiry]
    _ = (s.expiry.entries.filter fun e => due e.deadline).map (Expiry.rename g) := List.filter_map

/-- what expires is the same, but for what is outside of the part -/
theorem expire (h : Mirrors p f g t s) (hc : t.Consistent) (hs : t.Split p) (ht : t.Timed) (now : Nat) :
    Mirrors p f g (t.expire now).1 (s.expire now).1 ∧
      (t.expire now).2.filter (fun given => p given.1) = (s.expire now).2 := by
  have hleft : Mirrors p f g { t with expiry := ⟨t.expiry.entries.filter fun e => now < e.deadline⟩ }
      { s with expiry := ⟨s.expiry.entries.filter fun e => now < e.deadline⟩ } := by
    have hsame := h.same
    refine { h with same := ?_ }
    simp only [restrict, rename, Tracker.mk.injEq] at hsame ⊢
    exact ⟨hsame.1, hsame.2.1, hsame.2.2.1, congrArg ExpiryQueue.mk (h.due fun d => now < d), hsame.2.2.2.2⟩
  simp only [Tracker.expire, ExpiryQueue.popExpired, ExpiryQueue.popEntries_eq ht.ordered,
    ExpiryQueue.popEntries_eq (h.ordered ht)]
  exact hleft.expireEntries (hc.congr rfl rfl rfl) hs (h.due fun d => d ≤ now)

/-! ### Looking -/

theorem isPending (h : Mirrors p f g t s) (hk : p k = true) : t.isPending k = s.isPending k := by
  simp only [Tracker.isPending, Registry.contains_eq_isSome, h.groups hk, h.objectives hk, Option.isSome_map]

theorem pendingKeys (h : Mirrors p f g t s) : t.pendingKeys.filter p = s.pendingKeys := by
  have hkeys : ∀ {α β : Type} {r : Registry Key α} {r' : Registry Key β} {φ : β → α}, r.restrict p = r'.map φ →
      r.keys.filter p = r'.keys := by
    intro α β r r' φ hsame
    have hentries := congrArg (fun r : Registry Key α => r.entries.map Prod.fst) hsame
    simp only [Registry.restrict, Registry.map, List.map_map] at hentries
    rw [Registry.keys, List.filter_map]
    exact hentries
  rw [Tracker.pendingKeys, Key.filter_ascending, List.filter_append, hkeys (congrArg Tracker.groups h.same),
    hkeys (congrArg Tracker.objectives h.same)]
  rfl

theorem registered (h : Mirrors p f g t s) (hk : p k = true) (r : Registrant) :
    t.Registered k r ↔ s.Registered k r := by
  simp only [Registered, h.objectives hk, Option.map_eq_some_iff]
  constructor
  · rintro ⟨_, ⟨rs, hrs, rfl⟩, hr⟩
    exact ⟨rs, hrs, hr⟩
  · rintro ⟨rs, hrs, hr⟩
    exact ⟨_, ⟨rs, hrs, rfl⟩, hr⟩

theorem hasObjective (h : Mirrors p f g t s) {n : UInt32}
    (hr : ∀ k r, t.Registered k r → r.objective.id = n → p k = true) : t.hasObjective n = s.hasObjective n := by
  rw [Bool.eq_iff_iff, hasObjective_iff, hasObjective_iff]
  constructor
  · rintro ⟨k, r, hreg, hn⟩
    exact ⟨k, r, (h.registered (hr k r hreg hn) r).1 hreg, hn⟩
  · rintro ⟨k, r, hreg, hn⟩
    exact ⟨k, r, (h.registered (h.of_objectives hreg.choose_spec.1) r).2 hreg, hn⟩

/-! ### Registering -/

theorem enlist_mine (h : Mirrors p f g t s) (ho : p owner = true) (hk : ∀ k ∈ e.waitOn, p k = p owner) :
    Mirrors p f g (t.enlist e owner) (s.enlist e owner) := by
  have hnext : f (s.nextId + 1) = f s.nextId + 1 := by
    rw [h.nextIds 1, h.nextId]
  refine { h with nextIds := fun i => ?_, same := ?_ }
  · simp only [enlist]
    rw [Nat.add_assoc, h.nextIds, Nat.add_assoc]
  · rw [restrict_enlist hk, if_pos ho, h.same, rename_enlist h.ids.injective hnext]

/-- the numbers from `n` on are moved up by one -/
def bump (n : Nat) (f : Nat → Nat) (i : Nat) : Nat := if i < n then f i else f i + 1

theorem strictMono_bump {n : Nat} (hf : StrictMono f) : StrictMono (bump n f) := by
  intro i j hij
  have := hf hij
  unfold bump
  split_ifs <;> omega

/-- the numbers that were given out before stay as they are -/
theorem bump_of_lt (hf : StrictMono f) {n i : Nat} (h : f i < f n) : bump n f i = f i := if_pos (hf.lt_iff_lt.1 h)

theorem bump_add (n i : Nat) : bump n f (n + i) = f (n + i) + 1 := if_neg (by omega)

/-- an id is skipped, since the element is not of the part -/
theorem skipId (h : Mirrors p f g t s) (hc : t.Consistent) :
    Mirrors p (bump s.nextId f) g { t with nextId := t.nextId + 1 } s := by
  have hid : ∀ w ∈ t.waiting, ∀ i, w.id = f i → bump s.nextId f i = f i := by
    intro w hw i hi
    apply bump_of_lt h.ids
    rw [← hi, h.nextId]
    exact hc.below w hw
  have hwaiting : s.waiting.map (Waiting.rename (bump s.nextId f)) = s.waiting.map (Waiting.rename f) := by
    refine List.map_congr_left fun w hw => ?_
    have hmem : w.rename f ∈ t.waiting.filter fun w => p w.owner := by
      rw [h.waiting]
      exact List.mem_map_of_mem hw
    rw [Waiting.rename, Waiting.rename, hid _ (List.mem_of_mem_filter hmem) w.id rfl]
  have hgroups : s.groups.map (List.map (bump s.nextId f)) = s.groups.map (List.map f) := by
    refine Registry.map_congr fun k ids hk => List.map_congr_left fun id hmem => ?_
    have ha : f id ∈ t.awaiting k := by
      rw [awaiting, h.get_groups hk]
      exact List.mem_map_of_mem hmem
    obtain ⟨w, hw, hwid, -⟩ := hc.listed k _ ha
    exact hid w hw id hwid
  have hlast : bump s.nextId f s.nextId = t.nextId + 1 := (bump_add s.nextId 0).trans (congrArg (· + 1) h.nextId)
  have hsame := h.same
  refine ⟨strictMono_bump h.ids, h.generations, fun i => ?_, h.nextGenerations, ?_⟩
  · rw [bump_add, h.nextIds, Nat.add_right_comm]
  · simp only [restrict, rename, Tracker.mk.injEq] at hsame ⊢
    rw [hwaiting, hgroups, hlast]
    exact ⟨hsame.1, hsame.2.1, hsame.2.2.1, hsame.2.2.2.1, hsame.2.2.2.2.1, rfl, hsame.2.2.2.2.2.2⟩

/-- a generation is skipped, since the objective is not of the part -/
theorem skipGeneration (h : Mirrors p f g t s) (ht : t.Timed) :
    Mirrors p f (bump s.nextGeneration g) { t with nextGeneration := t.nextGeneration + 1 } s := by
  have hpast : ∀ e ∈ t.expiry.entries, ∀ i, e.generation = g i → bump s.nextGeneration g i = g i := by
    intro e he i hi
    apply bump_of_lt h.generations
    rw [← hi, h.nextGeneration]
    exact ht.past e he
  have hexpiry : s.expiry.entries.map (Expiry.rename (bump s.nextGeneration g)) =
      s.expiry.entries.map (Expiry.rename g) := by
    refine List.map_congr_left fun e he => ?_
    rw [Expiry.rename, Expiry.rename, hpast _ (h.mem_expiry he) e.generation rfl]
  have hobjectives : s.objectives.map (Registrants.rename (bump s.nextGeneration g)) =
      s.objectives.map (Registrants.rename g) := by
    refine Registry.map_congr fun k rs hk => ?_
    obtain ⟨e, he, -, hgen⟩ := ht.scheduled k _ (h.get_objectives hk)
    rw [Registrants.rename, Registrants.rename, hpast e he rs.generation hgen]
  have hlast : bump s.nextGeneration g s.nextGeneration = t.nextGeneration + 1 :=
    (bump_add s.nextGeneration 0).trans (congrArg (· + 1) h.nextGeneration)
  have hsame := h.same
  refine ⟨h.ids, strictMono_bump h.generations, h.nextIds, fun i => ?_, ?_⟩
  · rw [bump_add, h.nextGenerations, Nat.add_right_comm]
  · simp only [restrict, rename, Tracker.mk.injEq] at hsame ⊢
    rw [hobjectives, hexpiry, hlast]
    exact ⟨hsame.1, hsame.2.1, hsame.2.2.1, hsame.2.2.2.1, hsame.2.2.2.2.1, hsame.2.2.2.2.2.1, rfl⟩

theorem enlist_other (h : Mirrors p f g t s) (hc : t.Consistent) (ho : p owner = false)
    (hk : ∀ k ∈ e.waitOn, p k = p owner) : Mirrors p (bump s.nextId f) g (t.enlist e owner) s := by
  have hskip := h.skipId hc
  refine { hskip with same := ?_ }
  rw [restrict_enlist hk, ho, if_neg Bool.false_ne_true]
  exact hskip.same

theorem registerAll_mine (h : Mirrors p f g t s) (ho : p owner = true) {es : List Element}
    (hk : ∀ e ∈ es, ∀ k ∈ e.waitOn, p k = p owner) :
    Mirrors p f g (t.registerAll owner es).1 (s.registerAll owner es).1 ∧
      (t.registerAll owner es).2 = (s.registerAll owner es).2 := by
  induction es generalizing t s with
  | nil => exact ⟨h, rfl⟩
  | cons e es ih =>
    have hes : ∀ e ∈ es, ∀ k ∈ e.waitOn, p k = p owner := fun e' he' => hk e' (List.mem_cons_of_mem e he')
    by_cases he : e.waitOn = []
    · obtain ⟨hmirrors, hready⟩ := ih h hes
      rw [registerAll_cons_of_eq es he, registerAll_cons_of_eq es he, hready]
      exact ⟨hmirrors, rfl⟩
    · rw [registerAll_cons_of_ne es he, registerAll_cons_of_ne es he]
      exact ih (h.enlist_mine ho (hk e List.mem_cons_self)) hes

theorem registerAll_other (h : Mirrors p f g t s) (hc : t.Consistent) (ho : p owner = false) {es : List Element}
    (hd : ∀ e ∈ es, e.waitOn.Nodup) (hk : ∀ e ∈ es, ∀ k ∈ e.waitOn, p k = p owner) :
    ∃ f', Mirrors p f' g (t.registerAll owner es).1 s := by
  induction es generalizing t f with
  | nil => exact ⟨f, h⟩
  | cons e es ih =>
    have hes : ∀ e ∈ es, ∀ k ∈ e.waitOn, p k = p owner := fun e' he' => hk e' (List.mem_cons_of_mem e he')
    have hds : ∀ e ∈ es, e.waitOn.Nodup := fun e' he' => hd e' (List.mem_cons_of_mem e he')
    by_cases he : e.waitOn = []
    · rw [registerAll_cons_of_eq es he]
      exact ih h hc hds hes
    · rw [registerAll_cons_of_ne es he]
      exact ih (h.enlist_other hc ho (hk e List.mem_cons_self)) (hc.enlist owner (hd e List.mem_cons_self) he) hds hes

theorem entries_schedule (h : Mirrors p f g t s) (ht : t.Timed) (hk : p k = true) (deadline : Nat) :
    (t.expiry.schedule deadline t.nextGeneration k).entries.filter (fun e => p e.key) =
      (s.expiry.schedule deadline s.nextGeneration k).entries.map (Expiry.rename g) := by
  -- in both, the entry goes behind all that are due by its deadline
  have hplace : ∀ {n es}, (es.Pairwise fun e f : Expiry Key => e.deadline ≤ f.deadline) →
      (∀ e ∈ es, e.generation < n) → ExpiryQueue.place ⟨deadline, n, k⟩ es =
        es.filter (fun e => e.deadline ≤ deadline) ++ ⟨deadline, n, k⟩ ::
          es.filter fun e => deadline < e.deadline := fun ho hg => ExpiryQueue.place_eq ho hg
  simp only [ExpiryQueue.schedule]
  rw [hplace ht.ordered ht.past, hplace (h.ordered ht) (h.past ht), List.filter_append, List.filter_cons, if_pos hk,
    List.map_append, List.map_cons, h.due fun d => d ≤ deadline, h.due fun d => deadline < d, Expiry.rename,
    h.nextGeneration]

theorem registerObjective_mine (h : Mirrors p f g t s) (ht : t.Timed) (hk : p k = true) (r : Registrant) (now : Nat) :
    Mirrors p f g (t.registerObjective k r now) (s.registerObjective k r now) := by
  have hdelay : (t.restrict p).delay = (s.rename f g).delay := by rw [h.same]
  simp only [restrict, rename] at hdelay
  have hexpiry := h.entries_schedule ht hk (now + t.delay)
  rw [hdelay] at hexpiry
  have hothers : ((t.objectives.get? k).map (·.list)).getD [] = ((s.objectives.get? k).map (·.list)).getD [] := by
    rw [h.objectives hk, Option.map_map]
    rfl
  have hobjectives : t.objectives.restrict p = s.objectives.map (Registrants.rename g) :=
    congrArg Tracker.objectives h.same
  refine { h with nextGenerations := fun i => ?_, same := ?_ }
  · simp only [registerObjective]
    rw [Nat.add_assoc, h.nextGenerations, Nat.add_assoc]
  · have hsame := h.same
    have hnext : g (s.nextGeneration + 1) = t.nextGeneration + 1 := h.nextGenerations 1
    simp only [restrict, rename, registerObjective, Tracker.mk.injEq] at hsame ⊢
    rw [Registry.restrict_insert, if_pos hk, Registry.map_insert, hobjectives, hdelay, hexpiry, hothers, hnext,
      ← h.nextGeneration]
    exact ⟨hsame.1, hsame.2.1, rfl, rfl, rfl, hsame.2.2.2.2.2.1, rfl⟩

theorem filter_place {e : Expiry Key} (hk : p e.key = false) (es : List (Expiry Key)) :
    (ExpiryQueue.place e es).filter (fun e => p e.key) = es.filter fun e => p e.key := by
  induction es with
  | nil => simp [ExpiryQueue.place, hk]
  | cons f fs ih =>
    rw [ExpiryQueue.place]
    split_ifs
    · rw [List.filter_cons, List.filter_cons, ih]
    · simp [hk]

theorem registerObjective_other (h : Mirrors p f g t s) (ht : t.Timed) (hk : p k = false) (r : Registrant) (now : Nat) :
    Mirrors p f (bump s.nextGeneration g) (t.registerObjective k r now) s := by
  have hplace : ∀ d n, (ExpiryQueue.place ⟨d, n, k⟩ t.expiry.entries).filter (fun e => p e.key) =
      t.expiry.entries.filter fun e => p e.key := fun d n => filter_place hk _
  have hskip := h.skipGeneration ht
  refine { hskip with same := ?_ }
  rw [← hskip.same]
  simp only [restrict, registerObjective, ExpiryQueue.schedule, hplace, Registry.restrict_insert, hk]
  rfl

end Mirrors

end Tracker

end FlowGroups
