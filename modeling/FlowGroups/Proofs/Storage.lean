/-
What is stored comes back. A record that a machine can hold is read back as it was written, and the store answers as a
map from the ids of objectives to records does, which it lists by ascending id.

- `record_reads_back`: records are read back if and only if the length of every chain can be said in 64 bits, and so is
  every record that fits into a memory with addresses of 64 bits.
- `store_answers_as_map`: whatever is put, asked for, removed and listed, in any order.
-/
import Mathlib.Algebra.Order.BigOperators.Group.List
import Mathlib.Algebra.Order.Group.Nat
import FlowGroups.Proofs.Records

namespace FlowGroups

/-! ## Lengths of varints -/

namespace Wire

/-- seven bits of a number are said by each byte -/
theorem length_writeVarint {p n : Nat} (h : n < 128 ^ (p + 1)) : (writeVarint n).length ≤ p + 1 := by
  induction p generalizing n with
  | zero =>
    rw [writeVarint, if_pos (by simpa using h)]
    simp
  | succ p ih =>
    rw [writeVarint]
    split
    · simp
    · have hd : n / 128 < 128 ^ (p + 1) := by
        rw [Nat.pow_succ] at h
        omega
      have hrest := ih hd
      rw [List.length_cons]
      omega

/-- a number that `p + 1` places cannot hold is refused, whatever follows it -/
theorem readVarint?_writeVarint_of_le {p n : Nat} (rest : Octets) (h : 2 * 128 ^ p ≤ n) :
    readVarint? (p + 1) (writeVarint n ++ rest) = none := by
  induction p generalizing n with
  | zero =>
    by_cases hn : n < 128
    · have hb : (UInt8.ofNat n).toNat = n := toNat_ofNat_of_lt (by omega)
      have hlt : UInt8.ofNat n < 128 := by
        rw [UInt8.lt_iff_toNat_lt, hb]
        exact hn
      have hlast : 2 ≤ UInt8.ofNat n := by
        rw [UInt8.le_iff_toNat_le, hb]
        simpa using h
      rw [writeVarint, if_pos hn, List.singleton_append, readVarint?, if_pos hlt, if_pos ⟨rfl, hlast⟩]
    · rw [writeVarint, if_neg hn, List.cons_append, readVarint?, if_neg (not_lt_continued n)]
      rfl
  | succ p ih =>
    have hd : 2 * 128 ^ p ≤ n / 128 := by
      rw [Nat.pow_succ] at h
      omega
    have hpos : 0 < 128 ^ p := Nat.pow_pos (by decide)
    have hn : ¬n < 128 := by omega
    rw [writeVarint, if_neg hn, List.cons_append, readVarint?, if_neg (not_lt_continued n), ih hd]
    rfl

/-- a message that goes on with more bytes than 64 bits can count cannot be read -/
theorem fields?_bytes_of_le {budget : Nat} {tag : UInt8} {number : Nat} {bs : Octets} (rest : Octets)
    (htag : key? (tag :: (writeBytes bs ++ rest)) = some (number, .bytes, writeBytes bs ++ rest))
    (h : 2 ^ 64 ≤ bs.length) : fields? budget (tag :: writeBytes bs ++ rest) = none := by
  have hlength : varint? (writeVarint bs.length ++ (bs ++ rest)) = none :=
    readVarint?_writeVarint_of_le (p := 9) (bs ++ rest) (by omega)
  have hfield : field? budget (tag :: writeBytes bs ++ rest) = none := by
    rw [field?, List.cons_append, htag]
    simp [payload?, readBytes?, writeBytes, List.append_assoc, hlength]
  rw [fields?_eq (by simp), hfield]
  rfl

end Wire

/-! ## Records that can be read back -/

namespace Record

/-- What a record takes up in the memory of a machine of 64 bits: three words for each vector, and the bytes of the
keys. -/
def footprint (r : Record) : Nat :=
  24 + (r.chains.map fun chain => 24 + (chain.map fun k => 24 + k.octets.length).sum).sum

theorem length_encodeChain_le {chain : List Key} (h : (chain.map fun k => 24 + k.octets.length).sum < 2 ^ 64) :
    (encodeChain chain).length ≤ (chain.map fun k => 24 + k.octets.length).sum := by
  induction chain with
  | nil => exact Nat.zero_le _
  | cons k chain ih =>
    rw [List.map_cons, List.sum_cons] at h ⊢
    have hvarint : (Wire.writeVarint k.octets.length).length ≤ 10 := Wire.length_writeVarint (p := 9) (by omega)
    have hrest := ih (by omega)
    have hsplit : encodeChain (k :: chain) = 0x0a :: Wire.writeBytes k.octets ++ encodeChain chain := rfl
    rw [hsplit, List.length_append, List.length_cons, Wire.writeBytes, List.length_append]
    omega

theorem fits_of_footprint {r : Record} (h : r.footprint < 2 ^ 64) : r.Fits := by
  intro chain hchain
  have hone : 24 + (chain.map fun k => 24 + k.octets.length).sum ≤
      (r.chains.map fun chain => 24 + (chain.map fun k => 24 + k.octets.length).sum).sum :=
    List.le_sum_of_mem (List.mem_map_of_mem hchain)
  rw [footprint] at h
  have hle : (encodeChain chain).length ≤ (chain.map fun k => 24 + k.octets.length).sum :=
    length_encodeChain_le (by omega)
  omega

/-- one chain that is too long spoils the record -/
theorem decode?_encode_of_not_fits {r : Record} (h : ¬r.Fits) : decode? r.encode = none := by
  have hchains : Wire.fields? Wire.maxNesting
      (r.chains.flatMap fun chain => 0x12 :: Wire.writeBytes (encodeChain chain)) = none := by
    unfold Fits at h
    generalize r.chains = chains at h
    induction chains with
    | nil => simp at h
    | cons chain chains ih =>
      have htag : ∀ rest, Wire.key? (0x12 :: rest) = some (2, .bytes, rest) := fun _ => rfl
      rw [List.flatMap_cons]
      by_cases hchain : (encodeChain chain).length < 2 ^ 64
      · have hlater : ¬∀ c ∈ chains, (encodeChain c).length < 2 ^ 64 := fun hall =>
          h (List.forall_mem_cons.2 ⟨hchain, hall⟩)
        rw [Wire.fields?_bytes _ (htag _) hchain, ih hlater]
        rfl
      · exact Wire.fields?_bytes_of_le _ (htag _) (Nat.le_of_not_lt hchain)
  have hid : r.objective.toNat < 2 ^ 64 := by
    have := r.objective.toNat_lt
    omega
  rw [decode?, encode, Wire.fields?_varint _ hid, hchains]
  rfl

end Record

/-- **What is written is read back.** A record that fits into a memory of 64 bits is read back as it was: its id, its
chains and their keys, each in its place, whether there are none of them or they are empty. Any record at all is read
back if and only if the length of each chain can be written, and refused otherwise. -/
theorem record_reads_back (r : Record) :
    (r.footprint < 2 ^ 64 → Record.decode r.encode = .ok r) ∧ (Record.decode r.encode = .ok r ↔ r.Fits) := by
  have hexact : Record.decode r.encode = .ok r ↔ r.Fits := by
    constructor
    · intro h
      by_contra hlong
      rw [Record.decode, Record.decode?_encode_of_not_fits hlong] at h
      cases h
    · exact Record.decode_encode
  exact ⟨fun h => hexact.2 (Record.fits_of_footprint h), hexact⟩

/-- the id is zero, the first chain has no keys, and the second one begins with a key that has no bytes -/
theorem sparse_record_reads_back :
    Record.decode (Record.encode ⟨0, [[], [⟨[]⟩, ⟨[7]⟩], []]⟩) = .ok ⟨0, [[], [⟨[]⟩, ⟨[7]⟩], []]⟩ :=
  (record_reads_back _).1 (by decide)

/-! ## Places in the store -/

namespace Store

theorem place_of_lt {k v : Octets} {es fs : List (Octets × Octets)} (h : ∀ e ∈ es, e.1 < k) :
    place k v (es ++ fs) = es ++ place k v fs := by
  induction es with
  | nil => rfl
  | cons e es ih =>
    have he := h e List.mem_cons_self
    have hle : ¬k < e.1 := List.lt_asymm he
    have hne : k ≠ e.1 := fun heq => List.lt_irrefl _ (heq ▸ he)
    rw [List.cons_append, place, if_neg hle, if_neg hne, ih fun f hf => h f (List.mem_cons_of_mem e hf)]
    rfl

theorem place_of_gt {k v : Octets} {es : List (Octets × Octets)} (h : ∀ e ∈ es, k < e.1) :
    place k v es = (k, v) :: es := by
  cases es with
  | nil => rfl
  | cons e es => rw [place, if_pos (h e List.mem_cons_self)]

theorem place_self (k v w : Octets) (es : List (Octets × Octets)) : place k v ((k, w) :: es) = (k, v) :: es := by
  rw [place, if_neg (List.lt_irrefl k), if_pos rfl]

end Store

/-! ## Questions and answers -/

/-- what is asked of a store -/
inductive Query
  | put (r : Record)
  | get (n : UInt32)
  | remove (n : UInt32)
  | list
deriving DecidableEq, Repr

/-- what is answered -/
inductive Answer
  | done
  | found (result : Except StoreError (Option Record))
  | listed (result : Except StoreError (List Record))
deriving DecidableEq, Repr

/-- the answers to some questions, one after the other, of whatever answers one and goes on -/
def answers {σ : Type} (answer : σ → Query → σ × Answer) : σ → List Query → List Answer
  | _, [] => []
  | s, q :: qs => (answer s q).2 :: answers answer (answer s q).1 qs

def Store.answer (s : Store) : Query → Store × Answer
  | .put r => (s.put r, .done)
  | .get n => (s, .found (s.get n))
  | .remove n => ((s.remove n).1, .found (s.remove n).2)
  | .list => (s, .listed s.list)

/-- a finite map from ids to records -/
abbrev Catalog := UInt32 → Option Record

namespace Catalog

def empty : Catalog := fun _ => none

/-- every id, in ascending order -/
def ids : List UInt32 := (List.range UInt32.size).map UInt32.ofNat

/-- the records of all ids that have one, by ascending id -/
def records (m : Catalog) : List Record := ids.filterMap m

def answer (m : Catalog) : Query → Catalog × Answer
  | .put r => (Function.update m r.objective (some r), .done)
  | .get n => (m, .found (.ok (m n)))
  | .remove n => (Function.update m n none, .found (.ok (m n)))
  | .list => (m, .listed (.ok m.records))

/-- the ids below one, the id, and those above it -/
theorem exists_split (n : UInt32) :
    ∃ lower upper, ids = lower ++ n :: upper ∧ (∀ j ∈ lower, j < n) ∧ ∀ j ∈ upper, n < j := by
  have hsize : ∀ j ∈ List.range UInt32.size, (UInt32.ofNat j).toNat = j := fun j hj =>
    UInt32.toNat_ofNat_of_lt' (List.mem_range.1 hj)
  have hsorted : ids.Pairwise (· < ·) := by
    rw [ids, List.pairwise_map]
    refine List.pairwise_lt_range.imp_of_mem ?_
    intro i j hi hj hlt
    rw [UInt32.lt_iff_toNat_lt, hsize i hi, hsize j hj]
    exact hlt
  have hmem : n ∈ ids := List.mem_map.2 ⟨n.toNat, List.mem_range.2 n.toNat_lt, UInt32.ofNat_toNat⟩
  obtain ⟨lower, upper, hsplit⟩ := List.append_of_mem hmem
  rw [hsplit, List.pairwise_append, List.pairwise_cons] at hsorted
  obtain ⟨-, ⟨hupper, -⟩, hlower⟩ := hsorted
  exact ⟨lower, upper, hsplit, fun j hj => hlower j hj n List.mem_cons_self, hupper⟩

/-- changing what one id has leaves the records below and above it as they are -/
theorem records_update (m : Catalog) (n : UInt32) :
    ∃ lower upper, (∀ r? : Option Record, records (Function.update m n r?) = lower ++ (r?.toList ++ upper)) ∧
      m.records = lower ++ ((m n).toList ++ upper) ∧
      (∀ r ∈ lower, ∃ j, j < n ∧ m j = some r) ∧ ∀ r ∈ upper, ∃ j, n < j ∧ m j = some r := by
  obtain ⟨lower, upper, hids, hlower, hupper⟩ := exists_split n
  have hall : ∀ r? : Option Record, records (Function.update m n r?) =
      lower.filterMap m ++ (r?.toList ++ upper.filterMap m) := by
    intro r?
    have hsame : ∀ js : List UInt32, (∀ j ∈ js, j ≠ n) → js.filterMap (Function.update m n r?) = js.filterMap m :=
      fun js hjs => List.filterMap_congr fun j hj => Function.update_of_ne (hjs j hj) _ _
    rw [records, hids, List.filterMap_append, List.filterMap_cons, Function.update_self,
      hsame lower fun j hj heq => absurd (hlower j hj) (heq ▸ UInt32.lt_irrefl _),
      hsame upper fun j hj heq => absurd (hupper j hj) (heq ▸ UInt32.lt_irrefl _)]
    cases r? <;> rfl
  refine ⟨lower.filterMap m, upper.filterMap m, hall, ?_, ?_, ?_⟩
  · rw [← hall, Function.update_eq_self]
  · intro r hr
    obtain ⟨j, hj, hm⟩ := List.mem_filterMap.1 hr
    exact ⟨j, hlower j hj, hm⟩
  · intro r hr
    obtain ⟨j, hj, hm⟩ := List.mem_filterMap.1 hr
    exact ⟨j, hupper j hj, hm⟩

end Catalog

/-! ## The store as a map -/

/-- a record under the bytes of its id -/
def Record.entry (r : Record) : Octets × Octets := (Word.big32 r.objective, r.encode)

/-- the store has the records of a catalog and nothing else -/
structure Store.Shows (s : Store) (m : Catalog) : Prop where
  entries : s.entries = m.records.map Record.entry
  lookup : ∀ n, s.get n = .ok (m n)
  own : ∀ n r, m n = some r → r.objective = n ∧ r.Fits

namespace Store.Shows

variable {s : Store} {m : Catalog}

theorem empty : Store.empty.Shows Catalog.empty := by
  refine ⟨?_, Store.get_empty, ?_⟩
  · have hnone : Catalog.empty.records = [] := List.filterMap_eq_nil_iff.2 fun _ _ => rfl
    rw [hnone]
    rfl
  · intro n r hr
    cases hr

/-- what is known of the places where some records are is known of their ids -/
theorem objective_of_mem (h : s.Shows m) {P : UInt32 → Prop} {rs : List Record}
    (hrs : ∀ r ∈ rs, ∃ n, P n ∧ m n = some r) : ∀ r ∈ rs, P r.objective := by
  intro r hr
  obtain ⟨n, hn, hm⟩ := hrs r hr
  rw [(h.own n r hm).1]
  exact hn

theorem put (h : s.Shows m) {r : Record} (hr : r.Fits) : (s.put r).Shows (Function.update m r.objective (some r)) := by
  obtain ⟨lower, upper, hupdate, hrecords, hlower, hupper⟩ := Catalog.records_update m r.objective
  refine ⟨?_, ?_, ?_⟩
  -- the entry goes between those of lower and of higher ids, in the place of the old one if there is one
  · have hbelow : ∀ e ∈ lower.map Record.entry, e.1 < Word.big32 r.objective :=
      List.forall_mem_map.2 fun q hq => Word.big32_lt (h.objective_of_mem hlower q hq)
    have habove : ∀ e ∈ upper.map Record.entry, Word.big32 r.objective < e.1 :=
      List.forall_mem_map.2 fun q hq => Word.big32_lt (h.objective_of_mem hupper q hq)
    have hplaced : Store.place (Word.big32 r.objective) r.encode (((m r.objective).toList ++ upper).map Record.entry) =
        r.entry :: upper.map Record.entry := by
      cases hold : m r.objective with
      | none => exact Store.place_of_gt habove
      | some old =>
        have hid := (h.own _ old hold).1
        rw [Option.toList_some, List.singleton_append, List.map_cons, Record.entry, hid]
        exact Store.place_self _ _ _ _
    rw [Store.put, Store.putOctets, h.entries, hrecords, hupdate, List.map_append, Store.place_of_lt hbelow, hplaced,
      List.map_append, Option.toList_some, List.singleton_append, List.map_cons]
  · intro n
    rw [Store.get_put hr, Function.update_apply]
    split
    · rfl
    · exact h.lookup n
  · intro n q hq
    rw [Function.update_apply] at hq
    split at hq
    · cases hq
      rename_i hn
      exact ⟨hn.symm, hr⟩
    · exact h.own n q hq

theorem remove (h : s.Shows m) (n : UInt32) : (s.remove n).1.Shows (Function.update m n none) := by
  obtain ⟨lower, upper, hupdate, hrecords, hlower, hupper⟩ := Catalog.records_update m n
  refine ⟨?_, ?_, ?_⟩
  · have hkeep : ∀ rs : List Record, (∀ r ∈ rs, r.objective ≠ n) →
        (rs.map Record.entry).filter (fun e => e.1 ≠ Word.big32 n) = rs.map Record.entry := by
      intro rs hrs
      rw [List.filter_eq_self]
      intro e he
      obtain ⟨r, hr, rfl⟩ := List.mem_map.1 he
      exact decide_eq_true fun hb => hrs r hr (Word.big32_injective hb)
    have hdrop : ((m n).toList.map Record.entry).filter (fun e => e.1 ≠ Word.big32 n) = [] := by
      rw [List.filter_eq_nil_iff]
      intro e he
      obtain ⟨r, hr, rfl⟩ := List.mem_map.1 he
      have hid := (h.own n r (Option.mem_toList.1 hr)).1
      simp [Record.entry, hid]
    have hbelow : ∀ r ∈ lower, r.objective ≠ n := fun r hr => UInt32.ne_of_lt (h.objective_of_mem hlower r hr)
    have habove : ∀ r ∈ upper, r.objective ≠ n := fun r hr => (UInt32.ne_of_lt (h.objective_of_mem hupper r hr)).symm
    rw [Store.remove, h.entries, hrecords, hupdate]
    simp only [List.map_append, List.filter_append, hkeep lower hbelow, hkeep upper habove, hdrop, Option.toList_none,
      List.map_nil]
  · intro j
    rw [Store.get_remove, Function.update_apply]
    split
    · rfl
    · exact h.lookup j
  · intro j r hr
    rw [Function.update_apply] at hr
    split at hr
    · cases hr
    · exact h.own j r hr

theorem list (h : s.Shows m) : s.list = .ok m.records := by
  have hfits : ∀ r ∈ m.records, r.Fits := by
    intro r hr
    obtain ⟨n, -, hn⟩ := List.mem_filterMap.1 hr
    exact (h.own n r hn).2
  rw [Store.list, h.entries]
  generalize m.records = rs at hfits
  induction rs with
  | nil => rfl
  | cons r rs ih =>
    rw [List.map_cons, List.mapM_cons, ih fun q hq => hfits q (List.mem_cons_of_mem r hq), Record.entry,
      Record.decode_encode (hfits r List.mem_cons_self)]
    rfl

/-- **One question.** The answers are the same, and so is what they leave. -/
theorem answer (h : s.Shows m) {q : Query} (hq : ∀ r, q = .put r → r.Fits) :
    (s.answer q).2 = (m.answer q).2 ∧ (s.answer q).1.Shows (m.answer q).1 := by
  cases q with
  | put r => exact ⟨rfl, h.put (hq r rfl)⟩
  | get n => exact ⟨congrArg Answer.found (h.lookup n), h⟩
  | remove n => exact ⟨congrArg Answer.found (h.lookup n), h.remove n⟩
  | list => exact ⟨congrArg Answer.listed h.list, h⟩

/-- **Some questions**, from any store and the catalog that it shows. -/
theorem answers_eq (h : s.Shows m) {qs : List Query} (hqs : ∀ r, .put r ∈ qs → r.Fits) :
    answers Store.answer s qs = answers Catalog.answer m qs := by
  induction qs generalizing s m with
  | nil => rfl
  | cons q qs ih =>
    obtain ⟨hsame, hnext⟩ := h.answer (q := q) fun r hr => hqs r (hr ▸ List.mem_cons_self)
    rw [answers, answers, hsame, ih hnext fun r hr => hqs r (List.mem_cons_of_mem q hr)]

end Store.Shows

/-- **The store is a map.** An empty store is asked to put, to find, to remove and to list records that can be read
back, as often as one likes and in any order. It answers as the empty map from ids to records does, in which the last
record that was put under an id and not removed since is found, and which lists the records it has by ascending id. -/
theorem store_answers_as_map {qs : List Query} (h : ∀ r, .put r ∈ qs → r.Fits) :
    answers Store.answer .empty qs = answers Catalog.answer .empty qs :=
  Store.Shows.empty.answers_eq h

/-- a record is put twice with another one between, and that one is then removed -/
theorem store_answers_as_map_of_replaced :
    answers Catalog.answer .empty
        [.put ⟨256, [[]]⟩, .put ⟨1, []⟩, .put ⟨256, [[⟨[7]⟩]]⟩, .list, .remove 1, .get 1, .list] =
      [.done, .done, .done, .listed (.ok [⟨1, []⟩, ⟨256, [[⟨[7]⟩]]⟩]), .found (.ok (some ⟨1, []⟩)), .found (.ok none),
        .listed (.ok [⟨256, [[⟨[7]⟩]]⟩])] := by
  have hfits : ∀ r, .put r ∈ ([.put ⟨256, [[]]⟩, .put ⟨1, []⟩, .put ⟨256, [[⟨[7]⟩]]⟩, .list, .remove 1, .get 1,
      .list] : List Query) → r.Fits := by
    intro r hr
    apply Record.fits_of_footprint
    simp only [List.mem_cons, Query.put.injEq, reduceCtorEq, List.not_mem_nil, or_false] at hr
    obtain rfl | rfl | rfl := hr <;> decide
  calc answers Catalog.answer .empty _
    _ = answers Store.answer .empty _ := (store_answers_as_map hfits).symm
    _ = _ := by decide +kernel

end FlowGroups
