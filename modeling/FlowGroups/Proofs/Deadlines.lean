/-
When objectives run out of time, told from the history of a tracker. Each registration of an objective puts the time of
its key off; the entries of the expiry queue that were made for earlier registrations are outdated, and so is every
entry of a key that was resolved, given up or emptied. An entry counts only if it carries the generation of the key,
which is the number of registrations before its latest one.

- `Latest`, `Remains`: the latest registration under a key, and who is still registered, by step numbers.
- `roster_run`: under every key wait those who remain, in the order they were registered.
- `Dated`: each entry was made by a registration, and a key that somebody waits for has the entry of its latest one.
- `given_expireEntries`: which of the expired entries end something, in a queue that repeats none.
- `expires_exactly`: what expires by a given time, and in which order; and the first deadline is never too late.
-/
import Mathlib.Data.List.Induction
import FlowGroups.Proofs.Confluence
import FlowGroups.Proofs.Expiry
import FlowGroups.Proofs.Purging

namespace FlowGroups.Tracker

/-! ## Registrations in a history -/

/-- an objective is registered under the key at step `i`, at this time -/
def RegisteredAt (ops : List Op) (k : Key) (i time : Nat) : Prop := ∃ r, ops[i]? = some (.registerObjective k r time)

/-- nobody is registered under the key behind step `i` -/
structure Latest (ops : List Op) (k : Key) (i time : Nat) : Prop where
  registered : RegisteredAt ops k i time
  last : ∀ m later, i < m → ¬RegisteredAt ops k m later

def Op.isRegistration : Op → Bool
  | .registerObjective .. => true
  | _ => false

/-- how many objectives are registered before step `i` -/
def generation (ops : List Op) (i : Nat) : Nat := (ops.take i).countP Op.isRegistration

/-- the operation hands out a registrant from under a key: as completed, as expired, or with its objective -/
def Releases (t : Tracker) (op : Op) (k : Key) (r : Registrant) : Prop :=
  match op with
  | .resolve j => j = k ∧ r ∈ (t.resolve j).2.completed
  | .expire now => ∃ given ∈ (t.expire now).2, given.1 = k ∧ r ∈ given.2
  | .takeObjective n => r.objective.id = n
  | .registerElement .. | .registerObjective .. => False

instance (t : Tracker) (op : Op) (k : Key) (r : Registrant) : Decidable (t.Releases op k r) :=
  match op with
  | .resolve _ => inferInstanceAs (Decidable (_ ∧ _))
  | .expire now => inferInstanceAs (Decidable (∃ given ∈ (t.expire now).2, given.1 = k ∧ r ∈ given.2))
  | .takeObjective _ => inferInstanceAs (Decidable (_ = _))
  | .registerElement .. | .registerObjective .. => .isFalse id

/-- the registrant was registered under the key at step `i`, and was not handed out since -/
structure Remains (delay : Nat) (ops : List Op) (k : Key) (i : Nat) (r : Registrant) : Prop where
  registered : ∃ time, ops[i]? = some (.registerObjective k r time)
  kept : ∀ m op, i < m → ops[m]? = some op → ¬(after delay ops m).Releases op k r

/-- these are the registrants that remain under a key, in the order they were registered -/
def Roster (delay : Nat) (ops : List Op) (k : Key) (rs : List Registrant) : Prop :=
  ∃ entries : List (Nat × Registrant), entries.map Prod.snd = rs ∧ entries.Pairwise (fun x y => x.1 < y.1) ∧
    ∀ i r, (i, r) ∈ entries ↔ Remains delay ops k i r

section

variable {delay : Nat} {ops : List Op} {op : Op} {k : Key} {i j time later : Nat} {r : Registrant}

/-! ### One step more -/

theorem getElem?_snoc (ops : List Op) (op : Op) (i : Nat) :
    (ops ++ [op])[i]? = if i = ops.length then some op else ops[i]? := by
  split_ifs with hi
  · rw [hi, List.getElem?_concat_length]
  · rcases Nat.lt_or_gt_of_ne hi with hlt | hgt
    · exact List.getElem?_append_left hlt
    · have hlen : (ops ++ [op]).length ≤ i := by
        rw [List.length_append]
        exact hgt
      rw [List.getElem?_eq_none hlen, List.getElem?_eq_none (Nat.le_of_lt hgt)]

theorem RegisteredAt.lt_length (h : RegisteredAt ops k i time) : i < ops.length := by
  obtain ⟨r, hr⟩ := h
  obtain ⟨hlt, -⟩ := List.getElem?_eq_some_iff.1 hr
  exact hlt

theorem registeredAt_snoc : RegisteredAt (ops ++ [op]) k i time ↔
    RegisteredAt ops k i time ∨ (i = ops.length ∧ ∃ r, op = .registerObjective k r time) := by
  rw [RegisteredAt, getElem?_snoc]
  split_ifs with hi
  · have hold : ¬RegisteredAt ops k i time := fun h => Nat.lt_irrefl _ (hi ▸ h.lt_length)
    simp [hi, hi ▸ hold]
  · simp [hi, RegisteredAt]

theorem run_snoc (t : Tracker) (ops : List Op) (op : Op) : t.run (ops ++ [op]) = (t.run ops).step op := by
  rw [run, List.foldl_append]
  rfl

theorem after_length (delay : Nat) (ops : List Op) : after delay ops ops.length = (fresh delay).run ops := by
  rw [after, List.take_length]

theorem after_snoc (h : i ≤ ops.length) : after delay (ops ++ [op]) i = after delay ops i := by
  rw [after, after, List.take_append_of_le_length h]

/-! ### Generations -/

theorem generation_snoc (h : i ≤ ops.length) : generation (ops ++ [op]) i = generation ops i := by
  rw [generation, generation, List.take_append_of_le_length h]

theorem generation_length_snoc (ops : List Op) (op : Op) :
    generation (ops ++ [op]) (ops ++ [op]).length =
      generation ops ops.length + if op.isRegistration then 1 else 0 := by
  rw [generation, generation, List.take_length, List.take_length, List.countP_append, List.countP_singleton]

theorem RegisteredAt.generation_lt (h : RegisteredAt ops k i time) (hij : i < j) :
    generation ops i < generation ops j := by
  obtain ⟨r, hr⟩ := h
  have hone : generation ops (i + 1) = generation ops i + 1 := by
    rw [generation, generation, List.take_add_one, hr, List.countP_append]
    rfl
  have hmono : generation ops (i + 1) ≤ generation ops j := by
    have hprefix : ops.take (i + 1) <+: ops.take j := List.take_prefix_take_left hij
    exact hprefix.sublist.countP_le
  omega

/-- a generation belongs to one registration -/
theorem RegisteredAt.unique {l : Key} (h : RegisteredAt ops k i time) (h' : RegisteredAt ops l j later)
    (hg : generation ops i = generation ops j) : i = j ∧ k = l ∧ time = later := by
  have hij : i = j := by
    rcases Nat.lt_trichotomy i j with hlt | heq | hlt
    · exact absurd hg (Nat.ne_of_lt (h.generation_lt hlt))
    · exact heq
    · exact absurd hg.symm (Nat.ne_of_lt (h'.generation_lt hlt))
  subst hij
  obtain ⟨r, hr⟩ := h
  obtain ⟨s, hs⟩ := h'
  have hsame := hr.symm.trans hs
  simp only [Option.some.injEq, Op.registerObjective.injEq] at hsame
  exact ⟨rfl, hsame.1, hsame.2.2⟩

theorem Latest.unique (h : Latest ops k i time) (h' : Latest ops k j later) : i = j ∧ time = later := by
  rcases Nat.lt_trichotomy i j with hlt | rfl | hlt
  · exact absurd h'.registered (h.last j later hlt)
  · obtain ⟨-, -, htime⟩ := h.registered.unique h'.registered rfl
    exact ⟨rfl, htime⟩
  · exact absurd h.registered (h'.last i time hlt)

theorem Latest.snoc (h : Latest ops k i time) (hop : ∀ r now, op ≠ .registerObjective k r now) :
    Latest (ops ++ [op]) k i time := by
  refine ⟨registeredAt_snoc.2 (.inl h.registered), fun m now him hm => ?_⟩
  rcases registeredAt_snoc.1 hm with hm | ⟨-, s, hs⟩
  · exact h.last m now him hm
  · exact hop s now hs

theorem latest_snoc_self (ops : List Op) (k : Key) (r : Registrant) (time : Nat) :
    Latest (ops ++ [.registerObjective k r time]) k ops.length time := by
  refine ⟨registeredAt_snoc.2 (.inr ⟨rfl, r, rfl⟩), fun m now hm h => ?_⟩
  have hlt := h.lt_length
  rw [List.length_append, List.length_singleton] at hlt
  omega

/-! ## Who remains -/

theorem remains_snoc : Remains delay (ops ++ [op]) k i r ↔
    (Remains delay ops k i r ∧ ¬((fresh delay).run ops).Releases op k r) ∨
      (i = ops.length ∧ ∃ time, op = .registerObjective k r time) := by
  constructor
  · rintro ⟨⟨time, htime⟩, hkept⟩
    rw [getElem?_snoc] at htime
    split_ifs at htime with hi
    · exact .inr ⟨hi, time, Option.some.inj htime⟩
    · obtain ⟨hlt, -⟩ := List.getElem?_eq_some_iff.1 htime
      refine .inl ⟨⟨⟨time, htime⟩, fun m op' him hm => ?_⟩, ?_⟩
      · obtain ⟨hm', -⟩ := List.getElem?_eq_some_iff.1 hm
        have hsame : after delay (ops ++ [op]) m = after delay ops m := after_snoc (Nat.le_of_lt hm')
        rw [← hsame]
        exact hkept m op' him (by rw [getElem?_snoc, if_neg (Nat.ne_of_lt hm'), hm])
      · have hnow : after delay (ops ++ [op]) ops.length = (fresh delay).run ops := by
          rw [after_snoc (Nat.le_refl _), after_length]
        rw [← hnow]
        exact hkept ops.length op hlt (by rw [getElem?_snoc, if_pos rfl])
  · rintro (⟨⟨⟨time, htime⟩, hkept⟩, hnow⟩ | ⟨rfl, time, rfl⟩)
    · obtain ⟨hlt, -⟩ := List.getElem?_eq_some_iff.1 htime
      refine ⟨⟨time, by rw [getElem?_snoc, if_neg (Nat.ne_of_lt hlt), htime]⟩, fun m op' him hm => ?_⟩
      rw [getElem?_snoc] at hm
      split_ifs at hm with hlast
      · rw [hlast, after_snoc (Nat.le_refl _), after_length, ← Option.some.inj hm]
        exact hnow
      · obtain ⟨hm', -⟩ := List.getElem?_eq_some_iff.1 hm
        rw [after_snoc (Nat.le_of_lt hm')]
        exact hkept m op' him hm
    · refine ⟨⟨time, by rw [getElem?_snoc, if_pos rfl]⟩, fun m op' hm hop => ?_⟩
      obtain ⟨hlt, -⟩ := List.getElem?_eq_some_iff.1 hop
      rw [List.length_append, List.length_singleton] at hlt
      omega

/-- an operation that registers nobody under a key leaves those it does not hand out -/
theorem under_step (t : Tracker) (hop : ∀ r now, op ≠ .registerObjective k r now) :
    (t.step op).under k = (t.under k).filter fun r => ¬t.Releases op k r := by
  have hstays : ∀ {s : Tracker}, s.objectives.get? k = t.objectives.get? k →
      (∀ r ∈ t.under k, ¬t.Releases op k r) → s.under k = (t.under k).filter fun r => ¬t.Releases op k r := by
    intro s hs hfree
    rw [List.filter_eq_self.2 (by simpa using hfree), under, under, hs]
  have hgoes : ∀ {s : Tracker}, s.objectives.get? k = none →
      (∀ r ∈ t.under k, t.Releases op k r) → s.under k = (t.under k).filter fun r => ¬t.Releases op k r := by
    intro s hs hall
    rw [under_of_none hs, eq_comm, List.filter_eq_nil_iff]
    simpa using hall
  cases op with
  | registerElement e owner =>
    refine hstays ?_ fun _ _ => id
    exact registerElement_keeps (P := fun s => s.objectives.get? k = t.objectives.get? k) (fun _ => rfl) rfl
  | registerObjective j r now =>
    refine hstays ?_ fun _ _ => id
    have hkj : k ≠ j := by
      rintro rfl
      exact hop r now rfl
    exact (Registry.get?_insert _ _ _ _).trans (if_neg hkj)
  | resolve j =>
    rw [step]
    rcases resolve_cases t j with ⟨ids, -, he⟩ | ⟨rs, -, hrs, he⟩ | ⟨-, -, he⟩
    · rw [he]
      refine hstays rfl fun r _ hr => ?_
      rw [Releases, he] at hr
      exact absurd hr.2 List.not_mem_nil
    · rw [he]
      by_cases hkj : k = j
      · refine hgoes ((Registry.get?_erase _ _ _).trans (if_pos hkj)) fun r hr => ⟨hkj.symm, ?_⟩
        rw [he]
        rw [hkj, under_of_some hrs] at hr
        exact hr
      · exact hstays ((Registry.get?_erase _ _ _).trans (if_neg hkj)) fun r _ hr => hkj hr.1.symm
    · rw [he]
      refine hstays rfl fun r _ hr => ?_
      rw [Releases, he] at hr
      exact absurd hr.2 List.not_mem_nil
  | expire now =>
    have hget := get?_expire t now k
    split_ifs at hget with hk
    · obtain ⟨given, hgiven, hkey⟩ := List.mem_map.1 hk
      refine hgoes hget fun r hr => ⟨given, hgiven, hkey, ?_⟩
      rw [(under_of_expired (show (given.1, given.2) ∈ _ from hgiven)).2, hkey]
      exact hr
    · refine hstays hget fun r _ hr => ?_
      obtain ⟨given, hgiven, hkey, -⟩ := hr
      exact hk (List.mem_map.2 ⟨given, hgiven, hkey⟩)
  | takeObjective n => exact under_takeObjective t n k

theorem Roster.snoc {rs : List Registrant} (h : Roster delay ops k rs)
    (hop : ∀ r now, op ≠ .registerObjective k r now) :
    Roster delay (ops ++ [op]) k (rs.filter fun r => ¬((fresh delay).run ops).Releases op k r) := by
  obtain ⟨entries, rfl, hsorted, hmem⟩ := h
  refine ⟨entries.filter fun x => ¬((fresh delay).run ops).Releases op k x.2, ?_, hsorted.filter _, fun i r => ?_⟩
  · rw [List.filter_map]
    rfl
  · rw [List.mem_filter, hmem, remains_snoc, decide_eq_true_eq]
    exact ⟨.inl, fun h => h.resolve_right fun ⟨_, now, hnow⟩ => hop r now hnow⟩

theorem Roster.register {rs : List Registrant} (h : Roster delay ops k rs) (r : Registrant) (now : Nat) :
    Roster delay (ops ++ [.registerObjective k r now]) k (rs ++ [r]) := by
  obtain ⟨entries, rfl, hsorted, hmem⟩ := h
  refine ⟨entries ++ [(ops.length, r)], by simp, ?_, fun i s => ?_⟩
  · rw [List.pairwise_append]
    refine ⟨hsorted, List.pairwise_singleton _ _, fun x hx y hy => ?_⟩
    obtain ⟨⟨time, htime⟩, -⟩ := (hmem x.1 x.2).1 hx
    obtain ⟨hlt, -⟩ := List.getElem?_eq_some_iff.1 htime
    rw [List.mem_singleton.1 hy]
    exact hlt
  · rw [List.mem_append, hmem, remains_snoc, List.mem_singleton, Prod.mk.injEq]
    refine or_congr ⟨fun hr => ⟨hr, id⟩, fun hr => hr.1⟩ (and_congr_right fun _ => ?_)
    simp [eq_comm]

/-- **Under every key wait those who remain**, after any history. -/
theorem roster_run (delay : Nat) (ops : List Op) (k : Key) :
    Roster delay ops k (((fresh delay).run ops).under k) := by
  induction ops using List.reverseRecOn with
  | nil => exact ⟨[], rfl, .nil, fun i r => ⟨fun h => absurd h List.not_mem_nil, fun h => by simpa using h.registered⟩⟩
  | append_singleton ops op ih =>
    rw [run_snoc]
    by_cases hop : ∀ r now, op ≠ .registerObjective k r now
    · rw [under_step _ hop]
      exact ih.snoc hop
    · push Not at hop
      obtain ⟨r, now, rfl⟩ := hop
      have hunder : (((fresh delay).run ops).step (.registerObjective k r now)).under k =
          ((fresh delay).run ops).under k ++ [r] := by
        rw [under, step, registerObjective, Registry.get?_insert, if_pos rfl]
        rfl
      rw [hunder]
      exact ih.register r now

/-! ## Entries -/

/-- the entry that a registration makes -/
def entry (delay : Nat) (ops : List Op) (k : Key) (i time : Nat) : Expiry Key := ⟨time + delay, generation ops i, k⟩

/-- in order of time, and at one time in the order of the registrations -/
def Ahead (e f : Expiry Key) : Prop :=
  e.deadline < f.deadline ∨ (e.deadline = f.deadline ∧ e.generation < f.generation)

/-- the entries of a tracker with this history -/
structure Dated (delay : Nat) (ops : List Op) (t : Tracker) : Prop where
  lasts : t.delay = delay
  next : t.nextGeneration = generation ops ops.length
  ordered : t.expiry.entries.Pairwise Ahead
  /-- each entry was made by a registration -/
  made : ∀ e ∈ t.expiry.entries, ∃ i time, RegisteredAt ops e.key i time ∧ e = entry delay ops e.key i time
  /-- as long as somebody waits under a key, the entry of its latest registration is there -/
  kept : ∀ k rs, t.objectives.get? k = some rs → rs.list ≠ [] ∧
    ∃ i time, Latest ops k i time ∧ rs.generation = generation ops i ∧ entry delay ops k i time ∈ t.expiry.entries

theorem Ahead.le {e f : Expiry Key} (h : Ahead e f) : e.deadline ≤ f.deadline := by
  rcases h with hlt | ⟨heq, -⟩
  · exact Nat.le_of_lt hlt
  · exact Nat.le_of_eq heq

theorem Ahead.ne {e f : Expiry Key} (h : Ahead e f) : e ≠ f := by
  rintro rfl
  rcases h with hlt | ⟨-, hlt⟩
  · exact Nat.lt_irrefl _ hlt
  · exact Nat.lt_irrefl _ hlt

theorem entry_snoc (h : i ≤ ops.length) : entry delay (ops ++ [op]) k i time = entry delay ops k i time := by
  rw [entry, entry, generation_snoc h]

namespace Dated

variable {t s : Tracker}

theorem sorted (h : Dated delay ops t) : t.expiry.entries.Pairwise fun e f => e.deadline ≤ f.deadline :=
  h.ordered.imp Ahead.le

theorem past (h : Dated delay ops t) {e : Expiry Key} (he : e ∈ t.expiry.entries) :
    e.generation < t.nextGeneration := by
  obtain ⟨i, time, hi, heq⟩ := h.made e he
  rw [heq, h.next]
  exact hi.generation_lt hi.lt_length

theorem made_snoc (h : Dated delay ops t) (op : Op) {e : Expiry Key} (he : e ∈ t.expiry.entries) :
    ∃ i time, RegisteredAt (ops ++ [op]) e.key i time ∧ e = entry delay (ops ++ [op]) e.key i time := by
  obtain ⟨i, time, hi, heq⟩ := h.made e he
  refine ⟨i, time, registeredAt_snoc.2 (.inl hi), ?_⟩
  rw [entry_snoc (Nat.le_of_lt hi.lt_length)]
  exact heq

/-- fewer objectives, with the generations they had and the entries of these generations -/
theorem shrink (h : Dated delay ops t) (hop : op.isRegistration = false) (hd : s.delay = t.delay)
    (hn : s.nextGeneration = t.nextGeneration) (hq : s.expiry.entries.Sublist t.expiry.entries)
    (ho : ∀ k rs, s.objectives.get? k = some rs → rs.list ≠ [] ∧
      ∃ old, t.objectives.get? k = some old ∧ old.generation = rs.generation ∧
        ∀ e ∈ t.expiry.entries, e.key = k → e.generation = rs.generation → e ∈ s.expiry.entries) :
    Dated delay (ops ++ [op]) s where
  lasts := hd.trans h.lasts
  next := by
    rw [generation_length_snoc, hop, hn, h.next]
    rfl
  ordered := h.ordered.sublist hq
  made := fun e he => h.made_snoc op (hq.subset he)
  kept := fun k rs hk => by
    obtain ⟨hne, old, hold, hgen, hstay⟩ := ho k rs hk
    obtain ⟨-, i, time, hlatest, hi, hentry⟩ := h.kept k old hold
    have hle : i ≤ ops.length := Nat.le_of_lt hlatest.registered.lt_length
    refine ⟨hne, i, time, hlatest.snoc fun r now hreg => ?_, ?_, ?_⟩
    · rw [hreg] at hop
      cases hop
    · rw [generation_snoc hle, ← hgen, hi]
    · rw [entry_snoc hle]
      exact hstay _ hentry rfl (hi.symm.trans hgen)

theorem registerObjective (h : Dated delay ops t) (k : Key) (r : Registrant) (now : Nat) :
    Dated delay (ops ++ [.registerObjective k r now]) (t.registerObjective k r now) := by
  let e : Expiry Key := ⟨now + t.delay, t.nextGeneration, k⟩
  have hmem : ∀ f, f ∈ (t.registerObjective k r now).expiry.entries ↔ f = e ∨ f ∈ t.expiry.entries := fun f =>
    ExpiryQueue.mem_place
  have he : e = entry delay (ops ++ [.registerObjective k r now]) k ops.length now := by
    rw [entry_snoc (Nat.le_refl _), entry, ← h.next, ← h.lasts]
  have hself := latest_snoc_self ops k r now
  refine ⟨h.lasts, ?_, ?_, fun f hf => ?_, fun j rs hj => ?_⟩
  · rw [generation_length_snoc, ← h.next]
    rfl
  · exact ExpiryQueue.pairwise_place (fun _ _ => .inl) h.ordered h.sorted (fun f hf => h.past hf)
      fun f hf heq => .inr ⟨heq, h.past hf⟩
  · rcases (hmem f).1 hf with rfl | hf
    · exact ⟨ops.length, now, hself.registered, he⟩
    · exact h.made_snoc _ hf
  · simp only [Tracker.registerObjective, Registry.get?_insert] at hj
    split_ifs at hj with hjk
    · cases hj
      refine ⟨by simp, ops.length, now, hjk ▸ hself, ?_, (hmem _).2 (.inl ?_)⟩
      · rw [generation_snoc (Nat.le_refl _), h.next]
      · rw [hjk, he]
    · obtain ⟨hne, i, time, hlatest, hi, hentry⟩ := h.kept j rs hj
      have hle : i ≤ ops.length := Nat.le_of_lt hlatest.registered.lt_length
      refine ⟨hne, i, time, hlatest.snoc ?_, ?_, ?_⟩
      · intro s later heq
        cases heq
        exact hjk rfl
      · rw [generation_snoc hle, hi]
      · rw [entry_snoc hle]
        exact (hmem _).2 (.inr hentry)

theorem expire (h : Dated delay ops t) (now : Nat) : Dated delay (ops ++ [.expire now]) (t.expire now).1 := by
  have hdelay : (t.expire now).1.delay = t.delay :=
    expire_keeps (P := fun u => u.delay = t.delay) (fun _ _ hu => hu) (fun _ _ hu => hu) rfl now
  obtain ⟨hq, hn⟩ := times_expire h.sorted now
  refine h.shrink rfl hdelay hn ?_ fun k rs hk => ?_
  · rw [hq]
    exact List.filter_sublist
  · obtain ⟨hold, hstay⟩ := outlives_expire h.sorted hk
    exact ⟨(h.kept k rs hold).1, rs, hold, rfl, hstay⟩

theorem takeObjective (h : Dated delay ops t) (n : UInt32) :
    Dated delay (ops ++ [.takeObjective n]) (t.takeObjective n).1 := by
  obtain ⟨⟨hq, hn, hd⟩, ho⟩ := t.outlives_takeObjective n
  refine h.shrink rfl hd hn (by rw [hq]) fun k rs hk => ?_
  obtain ⟨old, hold, hgen, hne⟩ := ho k rs hk
  exact ⟨hne (h.kept k old hold).1, old, hold, hgen, fun e he _ _ => by rw [hq]; exact he⟩

theorem step (h : Dated delay ops t) (op : Op) : Dated delay (ops ++ [op]) (t.step op) := by
  have hsame : ∀ {u : Tracker}, op.isRegistration = false → u.delay = t.delay →
      u.nextGeneration = t.nextGeneration → u.expiry = t.expiry →
      (∀ k rs, u.objectives.get? k = some rs → t.objectives.get? k = some rs) → Dated delay (ops ++ [op]) u := by
    intro u hop hd hn hq ho
    refine h.shrink hop hd hn (by rw [hq]) fun k rs hk => ?_
    exact ⟨(h.kept k rs (ho k rs hk)).1, rs, ho k rs hk, rfl, fun e he _ _ => by rw [hq]; exact he⟩
  cases op with
  | registerElement e owner =>
    exact registerElement_keeps (fun _ => hsame rfl rfl rfl rfl fun _ _ => id) (hsame rfl rfl rfl rfl fun _ _ => id)
  | registerObjective k r now => exact h.registerObjective k r now
  | resolve k =>
    exact resolve_keeps (fun _ _ => hsame rfl rfl rfl rfl fun _ _ => id)
      (hsame rfl rfl rfl rfl fun _ _ hj => (Registry.of_get?_erase hj).2) (hsame rfl rfl rfl rfl fun _ _ => id)
  | expire now => exact h.expire now
  | takeObjective n => exact h.takeObjective n

/-- a live entry is that of the latest registration -/
theorem latest_of_ends (h : Dated delay ops t) {e : Expiry Key} (he : e ∈ t.expiry.entries) (hends : t.Ends e) :
    ∃ i time, Latest ops e.key i time ∧ e = entry delay ops e.key i time := by
  obtain ⟨rs, hrs, hg⟩ := hends
  obtain ⟨-, i, time, hlatest, hgen, -⟩ := h.kept e.key rs hrs
  obtain ⟨j, later, hj, heq⟩ := h.made e he
  have hgj : e.generation = generation ops j := congrArg Expiry.generation heq
  obtain ⟨rfl, -, rfl⟩ := hlatest.registered.unique hj (by rw [← hgen, hg, hgj])
  exact ⟨i, time, hlatest, heq⟩

/-- the entries repeat no generation -/
theorem distinct (h : Dated delay ops t) : t.expiry.entries.Pairwise fun e f => e.generation ≠ f.generation := by
  refine h.ordered.imp_of_mem fun {e f} he hf hef hgen => hef.ne ?_
  obtain ⟨i, time, hi, heq⟩ := h.made e he
  obtain ⟨j, later, hj, hfeq⟩ := h.made f hf
  have hg : generation ops i = generation ops j := by
    rw [heq, hfeq] at hgen
    exact hgen
  obtain ⟨rfl, hkey, rfl⟩ := hi.unique hj hg
  rw [heq, hfeq, hkey]

end Dated

theorem dated_run (delay : Nat) (ops : List Op) : Dated delay ops ((fresh delay).run ops) := by
  induction ops using List.reverseRecOn with
  | nil =>
    refine ⟨rfl, rfl, .nil, fun e he => absurd he List.not_mem_nil, fun k rs hk => ?_⟩
    cases hk
  | append_singleton ops op ih =>
    rw [run_snoc]
    exact ih.step op

/-! ## What expires -/

/-- an entry that ends something hands out everybody under its key -/
theorem given_expireEntry_iff {t : Tracker} {e : Expiry Key} {given : Key × List Registrant} :
    (t.expireEntry e).2 = some given ↔ t.Ends e ∧ (e.key, t.under e.key) = given := by
  by_cases he : t.Ends e
  · obtain ⟨rs, hk, hg⟩ := id he
    simp only [expireEntry, hk, if_pos hg, Option.some.injEq, he, true_and, under_of_some hk]
  · simp [expireEntry_of_not_ends he, he]

/-- where no generation is repeated, an entry does not get in the way of those behind it -/
theorem given_expireEntries {es : List (Expiry Key)} (h : es.Pairwise fun e f => e.generation ≠ f.generation)
    (t : Tracker) : (t.expireEntries es).2 = es.filterMap fun e => (t.expireEntry e).2 := by
  induction es generalizing t with
  | nil => rfl
  | cons e es ih =>
    obtain ⟨he, hes⟩ := List.pairwise_cons.1 h
    have hrest : es.filterMap (fun f => ((t.expireEntry e).1.expireEntry f).2) =
        es.filterMap fun f => (t.expireEntry f).2 := by
      refine List.filterMap_congr fun f hf => Option.ext fun given => ?_
      rw [given_expireEntry_iff, given_expireEntry_iff]
      by_cases hends : t.Ends e
      · rw [expireEntry_of_ends hends]
        by_cases hkey : f.key = e.key
        · have hgone : ¬((t.discharge e.key).purge e.key).Ends f := by
            intro hf'
            obtain ⟨rs, hrs, -⟩ := hf'
            exact (objectives_drop.1 hrs).1 hkey
          have hother : ¬t.Ends f := by
            intro hf'
            obtain ⟨rs, hrs, hgen⟩ := hends
            obtain ⟨ss, hss, hgen'⟩ := hf'
            rw [hkey, hrs, Option.some.injEq] at hss
            rw [← hss] at hgen'
            exact he f hf (hgen.symm.trans hgen')
          simp only [hgone, hother, false_and]
        · have hget : ((t.discharge e.key).purge e.key).objectives.get? f.key = t.objectives.get? f.key :=
            (Registry.get?_erase _ _ _).trans (if_neg hkey)
          rw [Ends, Ends, under, under, hget]
      · rw [expireEntry_of_not_ends hends]
    simp only [expireEntries, ih hes, hrest, List.filterMap_cons]
    cases (t.expireEntry e).2 <;> rfl

/-- those are handed out whose entries are due and are of the generation of their keys, in the order of the entries -/
theorem Dated.given_expire {t : Tracker} (h : Dated delay ops t) (now : Nat) :
    (t.expire now).2 =
      (t.expiry.entries.filter fun e => e.deadline ≤ now).filterMap fun e => (t.expireEntry e).2 := by
  rw [expire_eq h.sorted, given_expireEntries (h.distinct.filter _)]
  refine List.filterMap_congr fun e _ => Option.ext fun given => ?_
  rw [given_expireEntry_iff, given_expireEntry_iff]
  rfl

theorem Dated.mem_given {t : Tracker} (h : Dated delay ops t) {now : Nat} {given : Key × List Registrant} :
    given ∈ (t.expire now).2 ↔
      ∃ e ∈ t.expiry.entries, e.deadline ≤ now ∧ t.Ends e ∧ (e.key, t.under e.key) = given := by
  rw [h.given_expire, List.mem_filterMap]
  simp only [given_expireEntry_iff, List.mem_filter, decide_eq_true_eq, and_assoc]

theorem nextDeadline?_le {t : Tracker} (ho : t.expiry.entries.Pairwise fun e f => e.deadline ≤ f.deadline)
    {e : Expiry Key} (he : e ∈ t.expiry.entries) :
    ∃ deadline, t.nextDeadline? = some deadline ∧ deadline ≤ e.deadline := by
  cases hq : t.expiry.entries with
  | nil => exact absurd (hq ▸ he) List.not_mem_nil
  | cons f fs =>
    refine ⟨f.deadline, by simp [nextDeadline?, ExpiryQueue.nextDeadline?, hq], ?_⟩
    rw [hq] at he ho
    rcases List.mem_cons.1 he with rfl | he
    · exact Nat.le_refl _
    · exact (List.pairwise_cons.1 ho).1 e he

/-- some registrant of a key remains exactly if its list has one -/
theorem exists_remains_iff (delay : Nat) (ops : List Op) (k : Key) :
    (∃ i r, Remains delay ops k i r) ↔ ∃ rs, ((fresh delay).run ops).objectives.get? k = some rs := by
  obtain ⟨entries, hunder, -, hmem⟩ := roster_run delay ops k
  constructor
  · rintro ⟨i, r, hr⟩
    have hin : r ∈ ((fresh delay).run ops).under k := by
      rw [← hunder]
      exact List.mem_map_of_mem ((hmem i r).2 hr)
    obtain ⟨rs, hrs, -⟩ := mem_under.1 hin
    exact ⟨rs, hrs⟩
  · rintro ⟨rs, hrs⟩
    obtain ⟨r, hr⟩ := List.exists_mem_of_ne_nil _ ((dated_run delay ops).kept k rs hrs).1
    rw [← under_of_some hrs, ← hunder] at hr
    obtain ⟨x, hx, -⟩ := List.mem_map.1 hr
    exact ⟨x.1, x.2, (hmem x.1 x.2).1 hx⟩

/-- exactly these are given up at a time, in this order -/
structure Expires (delay : Nat) (ops : List Op) (now : Nat) (given : List (Key × List Registrant)) : Prop where
  /-- somebody remains under the key, and the time of its latest registration is up -/
  keys : ∀ k, k ∈ given.map Prod.fst ↔
    (∃ i r, Remains delay ops k i r) ∧ ∃ i time, Latest ops k i time ∧ time + delay ≤ now
  once : (given.map Prod.fst).Nodup
  everybody : ∀ k rs, (k, rs) ∈ given → Roster delay ops k rs
  ordered : given.Pairwise fun x y => ∀ i time j later, Latest ops x.1 i time → Latest ops y.1 j later →
    Ahead (entry delay ops x.1 i time) (entry delay ops y.1 j later)

/-- the keys of two entries come in the order of the entries -/
theorem Dated.ordered_given {t : Tracker} (h : Dated delay ops t) (now : Nat) :
    (t.expire now).2.Pairwise fun x y => ∀ i time j later, Latest ops x.1 i time → Latest ops y.1 j later →
      Ahead (entry delay ops x.1 i time) (entry delay ops y.1 j later) := by
  rw [h.given_expire, List.pairwise_filterMap]
  refine (h.ordered.filter _).imp_of_mem fun {e f} he hf hef x hx y hy i time j later hi hj => ?_
  obtain ⟨hends, rfl⟩ := given_expireEntry_iff.1 hx
  obtain ⟨hends', rfl⟩ := given_expireEntry_iff.1 hy
  obtain ⟨i', time', hi', heq⟩ := h.latest_of_ends (List.mem_of_mem_filter he) hends
  obtain ⟨j', later', hj', hfeq⟩ := h.latest_of_ends (List.mem_of_mem_filter hf) hends'
  obtain ⟨rfl, rfl⟩ := hi.unique hi'
  obtain ⟨rfl, rfl⟩ := hj.unique hj'
  rw [← heq, ← hfeq]
  exact hef

theorem Dated.mem_keys_given {t : Tracker} (h : Dated delay ops t) {now : Nat} :
    k ∈ (t.expire now).2.map Prod.fst ↔
      (∃ rs, t.objectives.get? k = some rs) ∧ ∃ i time, Latest ops k i time ∧ time + delay ≤ now := by
  rw [List.mem_map]
  constructor
  · rintro ⟨x, hx, rfl⟩
    obtain ⟨e, he, hle, hends, rfl⟩ := h.mem_given.1 hx
    obtain ⟨i, time, hl, heq⟩ := h.latest_of_ends he hends
    obtain ⟨rs, hrs, -⟩ := hends
    refine ⟨⟨rs, hrs⟩, i, time, hl, ?_⟩
    rw [heq] at hle
    exact hle
  · rintro ⟨⟨rs, hrs⟩, i, time, hl, hle⟩
    obtain ⟨-, i', time', hl', hgen, hentry⟩ := h.kept k rs hrs
    obtain ⟨rfl, rfl⟩ := hl.unique hl'
    exact ⟨(k, t.under k), h.mem_given.2 ⟨_, hentry, hle, ⟨rs, hrs, hgen⟩, rfl⟩, rfl⟩

/-- a key that came twice would have two latest registrations, one ahead of the other -/
theorem Dated.nodup_given {t : Tracker} (h : Dated delay ops t) (now : Nat) :
    ((t.expire now).2.map Prod.fst).Nodup := by
  rw [List.Nodup, List.pairwise_map]
  refine (h.ordered_given now).imp_of_mem fun {x y} hx _ hxy heq => ?_
  obtain ⟨-, i, time, hl, -⟩ := h.mem_keys_given.1 (List.mem_map_of_mem hx)
  exact (hxy i time i time hl (heq ▸ hl)).ne (by rw [heq])

theorem expires_run (delay : Nat) (ops : List Op) (now : Nat) :
    Expires delay ops now (((fresh delay).run ops).expire now).2 := by
  have h := dated_run delay ops
  refine ⟨fun k => ?_, h.nodup_given now, fun k rs hgiven => ?_, h.ordered_given now⟩
  · rw [exists_remains_iff]
    exact h.mem_keys_given
  · obtain ⟨e, -, -, -, hgive⟩ := h.mem_given.1 hgiven
    rw [Prod.mk.injEq] at hgive
    rw [← hgive.2, hgive.1]
    exact roster_run delay ops k

/-- **Expiry is exact.** After any history of a tracker, and for every time, exactly those keys are given up that still
have somebody registered and whose latest registration, even if its registrant was taken out since, is a delay ago or
more. Each comes once, with everybody who remains under it in the order they were registered, and they come in the order
of their deadlines, at one deadline in that of their latest registrations. And the first deadline the tracker names is
there for whoever waits, and is not later than the deadline of any key that somebody waits under. -/
theorem expires_exactly (delay : Nat) (ops : List Op) :
    (∀ now, Expires delay ops now (((fresh delay).run ops).expire now).2) ∧
      ∀ k, (∃ i r, Remains delay ops k i r) → ∃ i time deadline, Latest ops k i time ∧
        ((fresh delay).run ops).nextDeadline? = some deadline ∧ deadline ≤ time + delay := by
  refine ⟨expires_run delay ops, fun k hk => ?_⟩
  have h := dated_run delay ops
  obtain ⟨rs, hrs⟩ := (exists_remains_iff delay ops k).1 hk
  obtain ⟨-, i, time, hl, -, hentry⟩ := h.kept k rs hrs
  obtain ⟨deadline, hnext, hle⟩ := nextDeadline?_le h.sorted hentry
  exact ⟨i, time, deadline, hl, hnext, hle⟩

/-- the second registrant puts off the time of the first, and goes on doing so once it is taken out -/
example :
    let r (n : UInt32) : Registrant := ⟨0, ⟨n, .simple, [], ⟨"sample"⟩, none⟩, ⟨n, []⟩, ⟨11⟩⟩
    let k := Key.ofWord 21
    let t := (fresh 10).run [.registerObjective k (r 7) 0, .registerObjective k (r 8) 5, .takeObjective 8]
    (t.expire 12).2 = [] ∧ (t.expire 15).2 = [(k, [r 7])] := by decide

end

end FlowGroups.Tracker
