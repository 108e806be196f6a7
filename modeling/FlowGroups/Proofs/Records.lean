/-
Records and the store that keeps them. What is written is read back (`decode_encode`) unless some chain is longer than
a length of 64 bits can say, and writing or removing the record of one objective leaves all others as they are.

- `Store.Sound`: every objective has no record or one of its own that can be read back; each write keeps this.
- `Plan.Composes.short`, `record_of_build`: the records of plans can be read back.
-/
import FlowGroups.Store
import FlowGroups.Proofs.Plan

namespace FlowGroups

/-! ## Varints and fields -/

namespace Wire

theorem toNat_ofNat_of_lt {n : Nat} (h : n < 256) : (UInt8.ofNat n).toNat = n := by
  rw [UInt8.toNat_ofNat']
  exact Nat.mod_eq_of_lt h

/-- the high bit is set where more bytes follow -/
theorem not_lt_continued (n : Nat) : ¬UInt8.ofNat (n % 128 + 128) < 128 := by
  rw [UInt8.lt_iff_toNat_lt, toNat_ofNat_of_lt (by omega)]
  exact Nat.not_lt.2 (Nat.le_add_left 128 _)

/-- with `p + 1` places for bytes every number below `2 * 128 ^ p` is read back, whatever follows it -/
theorem readVarint?_writeVarint {p n : Nat} (rest : Octets) (h : n < 2 * 128 ^ p) :
    readVarint? (p + 1) (writeVarint n ++ rest) = some (n, rest) := by
  have hsmall : ∀ m < 128, UInt8.ofNat m < 128 ∧ (UInt8.ofNat m).toNat = m := by
    intro m hm
    have hb : (UInt8.ofNat m).toNat = m := toNat_ofNat_of_lt (by omega)
    refine ⟨?_, hb⟩
    rw [UInt8.lt_iff_toNat_lt, hb]
    exact hm
  induction p generalizing n with
  | zero =>
    obtain ⟨hlt, hb⟩ := hsmall n (by omega)
    have hlast : ¬2 ≤ UInt8.ofNat n := by
      rw [UInt8.le_iff_toNat_le, hb]
      exact Nat.not_le.2 (by simpa using h)
    rw [writeVarint, if_pos (by omega), List.singleton_append, readVarint?, if_pos hlt, if_neg fun hc => hlast hc.2, hb]
  | succ p ih =>
    by_cases hn : n < 128
    · obtain ⟨hlt, hb⟩ := hsmall n hn
      have hplace : ¬(p + 1 = 0 ∧ 2 ≤ UInt8.ofNat n) := fun hc => Nat.succ_ne_zero p hc.1
      rw [writeVarint, if_pos hn, List.singleton_append, readVarint?, if_pos hlt, if_neg hplace, hb]
    · have hb : (UInt8.ofNat (n % 128 + 128)).toNat = n % 128 + 128 := toNat_ofNat_of_lt (by omega)
      have hd : n / 128 < 2 * 128 ^ p := by
        rw [Nat.pow_succ] at h
        omega
      have hsum : (n % 128 + 128) % 128 + 128 * (n / 128) = n := by omega
      rw [writeVarint, if_neg hn, List.cons_append, readVarint?, if_neg (not_lt_continued n), ih hd, hb]
      simp only [Option.map_some, hsum]

theorem varint?_writeVarint {n : Nat} (rest : Octets) (h : n < 2 ^ 64) :
    varint? (writeVarint n ++ rest) = some (n, rest) :=
  readVarint?_writeVarint (p := 9) rest (by omega)

theorem readBytes?_writeBytes {bs : Octets} (rest : Octets) (h : bs.length < 2 ^ 64) :
    readBytes? (writeBytes bs ++ rest) = some (bs, rest) := by
  have htake : take? bs.length (bs ++ rest) = some (bs, rest) := by
    rw [take?, if_pos (by simp), List.take_left, List.drop_left]
  rw [readBytes?, writeBytes, List.append_assoc, varint?_writeVarint _ h]
  exact htake

/-- the first field of a message, and then the others -/
theorem fields?_eq {budget : Nat} {bs : Octets} (hne : bs ≠ []) :
    fields? budget bs =
      (field? budget bs).bind fun (number, p, rest) => (fields? budget rest).map ((number, p) :: ·) := by
  rw [fields?, if_neg hne]
  split
  · rename_i hf
    rw [hf]
    rfl
  · rename_i hf
    simp only [hf, Option.bind_some]

/-- the fields of a message that starts with a field of bytes -/
theorem fields?_bytes {budget : Nat} {tag : UInt8} {number : Nat} {bs : Octets} (rest : Octets)
    (htag : key? (tag :: (writeBytes bs ++ rest)) = some (number, .bytes, writeBytes bs ++ rest))
    (h : bs.length < 2 ^ 64) :
    fields? budget (tag :: writeBytes bs ++ rest) = (fields? budget rest).map ((number, .bytes bs) :: ·) := by
  have hfield : field? budget (tag :: writeBytes bs ++ rest) = some (number, .bytes bs, rest) := by
    rw [field?, List.cons_append, htag]
    simp [payload?, readBytes?_writeBytes rest h]
  rw [fields?_eq (by simp), hfield]
  rfl

theorem fields?_varint {budget n : Nat} (rest : Octets) (h : n < 2 ^ 64) :
    fields? budget (0x08 :: writeVarint n ++ rest) = (fields? budget rest).map ((1, .varint n) :: ·) := by
  have hfield : field? budget (0x08 :: writeVarint n ++ rest) = some (1, .varint n, rest) := by
    have htag : key? (0x08 :: (writeVarint n ++ rest)) = some (1, .varint, writeVarint n ++ rest) := rfl
    rw [field?, List.cons_append, htag]
    simp [payload?, varint?_writeVarint rest h]
  rw [fields?_eq (by simp), hfield]
  rfl

theorem fields?_nil (budget : Nat) : fields? budget [] = some [] := by
  rw [fields?, if_pos rfl]

end Wire

/-! ## Records -/

namespace Record

/-- can the length of every chain be written? -/
def Fits (r : Record) : Prop := ∀ chain ∈ r.chains, (encodeChain chain).length < 2 ^ 64

theorem Fits.append {r s : Record} (hr : r.Fits) (hs : s.Fits) : (r.append s).Fits := by
  intro chain hchain
  rcases List.mem_append.1 hchain with hchain | hchain
  · exact hr chain hchain
  · exact hs chain hchain

theorem Fits.eraseIdx {r : Record} (h : r.Fits) (i : Nat) : Fits { r with chains := r.chains.eraseIdx i } :=
  fun chain hchain => h chain (List.mem_of_mem_eraseIdx hchain)

theorem foldlM_addKey (ks done : List Key) :
    (ks.map fun k => (1, Wire.Payload.bytes k.octets)).foldlM addKey done = some (done ++ ks) := by
  induction ks generalizing done with
  | nil => simp
  | cons k ks ih =>
    have hk : addKey done (1, .bytes k.octets) = some (done ++ [k]) := rfl
    rw [List.map_cons, List.foldlM_cons, hk]
    exact (ih _).trans (by simp)

theorem decodeChain?_encodeChain {ks : List Key} (h : (encodeChain ks).length < 2 ^ 64) :
    decodeChain? (encodeChain ks) = some ks := by
  have hfields : Wire.fields? (Wire.maxNesting - 1) (encodeChain ks) =
      some (ks.map fun k => (1, .bytes k.octets)) := by
    induction ks with
    | nil => exact Wire.fields?_nil _
    | cons k ks ih =>
      have htag : ∀ rest, Wire.key? (0x0a :: rest) = some (1, .bytes, rest) := fun _ => rfl
      have hsplit : encodeChain (k :: ks) = 0x0a :: Wire.writeBytes k.octets ++ encodeChain ks := rfl
      have hlen : k.octets.length ≤ (Wire.writeBytes k.octets).length := by
        rw [Wire.writeBytes, List.length_append]
        exact Nat.le_add_left _ _
      rw [hsplit, List.length_append, List.length_cons] at h
      rw [hsplit, Wire.fields?_bytes _ (htag _) (by omega), ih (by omega)]
      rfl
  rw [decodeChain?, hfields]
  exact foldlM_addKey ks []

theorem foldlM_addField {chains : List (List Key)} (h : ∀ chain ∈ chains, (encodeChain chain).length < 2 ^ 64)
    (r : Record) :
    (chains.map fun chain => (2, Wire.Payload.bytes (encodeChain chain))).foldlM addField r =
      some { r with chains := r.chains ++ chains } := by
  induction chains generalizing r with
  | nil => simp
  | cons chain chains ih =>
    have hchain : addField r (2, .bytes (encodeChain chain)) = some { r with chains := r.chains ++ [chain] } := by
      rw [addField, decodeChain?_encodeChain (h chain List.mem_cons_self)]
      rfl
    rw [List.map_cons, List.foldlM_cons, hchain]
    exact (ih (fun c hc => h c (List.mem_cons_of_mem chain hc)) _).trans (by simp)

/-- **What is written is read back.** -/
theorem decode_encode {r : Record} (h : r.Fits) : decode r.encode = .ok r := by
  have hchains : Wire.fields? Wire.maxNesting
      (r.chains.flatMap fun chain => 0x12 :: Wire.writeBytes (encodeChain chain)) =
      some (r.chains.map fun chain => (2, .bytes (encodeChain chain))) := by
    have hall := h
    unfold Fits at hall
    generalize r.chains = chains at hall
    induction chains with
    | nil => exact Wire.fields?_nil _
    | cons chain chains ih =>
      have htag : ∀ rest, Wire.key? (0x12 :: rest) = some (2, .bytes, rest) := fun _ => rfl
      rw [List.flatMap_cons, Wire.fields?_bytes _ (htag _) (hall chain List.mem_cons_self),
        ih fun c hc => hall c (List.mem_cons_of_mem chain hc)]
      rfl
  have hid : r.objective.toNat < 2 ^ 64 := by
    have := r.objective.toNat_lt
    omega
  have hfirst : addField ⟨0, []⟩ (1, .varint r.objective.toNat) = some ⟨r.objective, []⟩ := by
    rw [addField, UInt32.ofNat_toNat]
  have hread : decode? r.encode = some r := by
    rw [decode?, encode, Wire.fields?_varint _ hid, hchains]
    simp only [Option.map_some, Option.bind_eq_bind, Option.bind_some, List.foldlM_cons, hfirst]
    rw [foldlM_addField h]
    rfl
  rw [decode, hread]

end Record

/-! ## The store as a map -/

namespace Store

theorem find?_place (k v j : Octets) (es : List (Octets × Octets)) :
    (place k v es).find? (fun e => e.1 = j) = if j = k then some (k, v) else es.find? fun e => e.1 = j := by
  induction es with
  | nil =>
    rw [place, List.find?_cons]
    by_cases hj : j = k
    · simp [hj]
    · simp [hj, Ne.symm hj]
  | cons e es ih =>
    rw [place]
    by_cases hj : j = k
    · subst hj
      rw [if_pos rfl] at ih ⊢
      split_ifs with hlt heq
      · simp
      · simp
      · rw [List.find?_cons_of_neg (by simpa using Ne.symm heq), ih]
    · have hkj : k ≠ j := Ne.symm hj
      rw [if_neg hj] at ih ⊢
      split_ifs with hlt heq
      · rw [List.find?_cons_of_neg (by simpa using hkj)]
      · rw [List.find?_cons_of_neg (by simpa using hkj), List.find?_cons_of_neg (by simpa [← heq] using hkj)]
      · rw [List.find?_cons, List.find?_cons, ih]

theorem get_empty (n : UInt32) : empty.get n = .ok none := rfl

/-- a record that is written is the one found then, and all others are as before -/
theorem get_put {r : Record} (h : r.Fits) (s : Store) (n : UInt32) :
    (s.put r).get n = if n = r.objective then .ok (some r) else s.get n := by
  have hfind : (s.put r).getOctets? (Word.big32 n) =
      if n = r.objective then some r.encode else s.getOctets? (Word.big32 n) := by
    rw [getOctets?, put, putOctets, find?_place]
    by_cases hn : n = r.objective
    · rw [if_pos (congrArg Word.big32 hn), if_pos hn]
      rfl
    · rw [if_neg fun hb => hn (Word.big32_injective hb), if_neg hn]
      rfl
  rw [get, hfind]
  by_cases hn : n = r.objective
  · simp only [if_pos hn, Record.decode_encode h]
    rfl
  · simp only [if_neg hn]
    rfl

/-- a record that is removed is gone, and all others are as before -/
theorem get_remove (s : Store) (m n : UInt32) :
    (s.remove m).1.get n = if n = m then .ok none else s.get n := by
  have hfind : (s.remove m).1.getOctets? (Word.big32 n) = if n = m then none else s.getOctets? (Word.big32 n) := by
    rw [getOctets?, remove, List.find?_filter]
    by_cases hn : n = m
    · subst hn
      simp
    · rw [if_neg hn, getOctets?]
      congr 2
      funext e
      by_cases he : e.1 = Word.big32 n
      · have hne : Word.big32 n ≠ Word.big32 m := fun hb => hn (Word.big32_injective hb)
        simp [he, hne]
      · simp [he]
  rw [get, hfind]
  by_cases hn : n = m
  · simp only [if_pos hn]
  · simp only [if_neg hn]
    rfl

/-- every objective has no record, or one of its own that can be written and read back -/
def Sound (s : Store) : Prop :=
  ∀ n, s.get n = .ok none ∨ ∃ r, s.get n = .ok (some r) ∧ r.objective = n ∧ r.Fits

theorem sound_empty : empty.Sound := fun n => Or.inl (get_empty n)

theorem Sound.put {s : Store} (h : s.Sound) {r : Record} (hr : r.Fits) : (s.put r).Sound := by
  intro n
  rw [get_put hr]
  by_cases hn : n = r.objective
  · exact Or.inr ⟨r, if_pos hn, hn.symm, hr⟩
  · rw [if_neg hn]
    exact h n

theorem Sound.remove {s : Store} (h : s.Sound) (m : UInt32) : (s.remove m).1.Sound := by
  intro n
  rw [get_remove]
  by_cases hn : n = m
  · exact Or.inl (if_pos hn)
  · rw [if_neg hn]
    exact h n

theorem Sound.of_get {s : Store} (h : s.Sound) {n : UInt32} {r : Record} (hr : s.get n = .ok (some r)) :
    r.objective = n ∧ r.Fits := by
  rcases h n with hn | ⟨r', hr', hid, hfit⟩
  · rw [hn] at hr
    cases hr
  · rw [hr'] at hr
    cases hr
    exact ⟨hid, hfit⟩

/-- does every record have a property, which may depend on the id it is stored under? -/
def All (P : UInt32 → Record → Prop) (s : Store) : Prop := ∀ n r, s.get n = .ok (some r) → P n r

section All

variable {P : UInt32 → Record → Prop} {s : Store}

theorem all_empty (P : UInt32 → Record → Prop) : empty.All P := by
  intro n r hr
  rw [get_empty] at hr
  cases hr

theorem All.put (h : s.All P) {r : Record} (hr : r.Fits) (hnew : P r.objective r) : (s.put r).All P := by
  intro n q hq
  rw [get_put hr] at hq
  split_ifs at hq with hn
  · cases hq
    rw [hn]
    exact hnew
  · exact h n q hq

theorem All.remove (h : s.All P) (m : UInt32) : (s.remove m).1.All P := by
  intro n r hr
  rw [get_remove] at hr
  split_ifs at hr
  · cases hr
  · exact h n r hr

end All

end Store

/-! ## The records of plans -/

/-- chains of at most four keys of four bytes each -/
def Record.Short (r : Record) : Prop := ∀ chain ∈ r.chains, chain.length ≤ 4 ∧ ∀ k ∈ chain, k.octets.length = 4

theorem Record.length_encodeChain {chain : List Key} (h : ∀ k ∈ chain, k.octets.length = 4) :
    (encodeChain chain).length = 6 * chain.length := by
  induction chain with
  | nil => rfl
  | cons k chain ih =>
    have hk := h k List.mem_cons_self
    have hsplit : encodeChain (k :: chain) = 0x0a :: Wire.writeBytes k.octets ++ encodeChain chain := rfl
    have hlength : (Wire.writeBytes k.octets).length = 5 := by
      rw [Wire.writeBytes, List.length_append, hk, Wire.writeVarint, if_pos (by decide)]
      rfl
    rw [hsplit, List.length_append, List.length_cons, hlength, ih fun j hj => h j (List.mem_cons_of_mem k hj),
      List.length_cons]
    omega

theorem Record.Short.fits {r : Record} (h : r.Short) : r.Fits := by
  intro chain hchain
  obtain ⟨hlength, hkeys⟩ := h chain hchain
  rw [length_encodeChain hkeys]
  omega

namespace Objective

theorem word_of_l2Interface {o : Objective} {device : DeviceId} {t : Treatment} {vlan? : Option VlanId} {d : Descriptor}
    {port : PortNumber} (h : o.l2Interface device t vlan? = .ok (d, port)) : d.key.octets.length = 4 := by
  unfold l2Interface at h
  dsimp only at h
  split at h <;> cases h
  rfl

theorem words_of_pair {o : Objective} {device : DeviceId} {t : Treatment} {mpls : Bool} {p : Pair}
    (h : o.pair device t mpls = .ok p) : p.inner.key.octets.length = 4 ∧ p.outer.key.octets.length = 4 := by
  unfold pair at h
  dsimp only at h
  split at h <;> cases h
  cases mpls <;> exact ⟨rfl, rfl⟩

theorem words_of_makes {o : Objective} {device : DeviceId} {t : Treatment} {c : BucketChain} (h : o.Makes device t c) :
    c.keys.length ≤ 3 ∧ ∀ k ∈ c.keys, k.octets.length = 4 := by
  cases h with
  | group _ hmade =>
    have hkey := word_of_l2Interface hmade
    simp [BucketChain.ofGroup, hkey]
  | pair _ _ hmade =>
    obtain ⟨hinner, houter⟩ := words_of_pair hmade
    simp [BucketChain.ofPair, hinner, houter]
  | label _ _ hmade =>
    obtain ⟨hinner, houter⟩ := words_of_pair hmade
    have hvpn : ∀ i, (Key.mplsL3Vpn o.id i).octets.length = 4 := fun _ => rfl
    simp [BucketChain.ofLabel, hinner, houter, vpnGroup, descriptor, hvpn]

theorem word_topKey (o : Objective) : o.topKey.octets.length = 4 := by
  unfold topKey
  split <;> rfl

end Objective

/-- there is at most one group on top of the chains, which have at most three -/
theorem Plan.Composes.short {o : Objective} {device : DeviceId} {adds : Bool} {p : Plan} {cs : List BucketChain}
    {crown : List Element} (h : p.Composes o device adds cs crown) : p.record.Short := by
  intro chain hchain
  rw [h.assembles.chains] at hchain
  obtain ⟨c, hc, rfl⟩ := List.mem_map.1 hchain
  obtain ⟨t, -, hmakes⟩ := forall₂_exists_left h.made c hc
  obtain ⟨hlength, hwords⟩ := Objective.words_of_makes hmakes
  rcases h.assembles.bare_or_top with ⟨rfl, -⟩ | ⟨e, -, rfl, -, -⟩
  · exact ⟨Nat.le_succ_of_le hlength, hwords⟩
  · refine ⟨Nat.succ_le_succ hlength, fun k hk => ?_⟩
    rcases List.mem_cons.1 hk with rfl | hk
    · exact (congrArg (·.octets.length) (h.top e List.mem_cons_self).2.2.1).trans o.word_topKey
    · exact hwords k hk

/-- **The record of a plan is its objective's, and can be read back once it is written.** -/
theorem Planner.record_of_build {planner : Planner} {o : Objective} {p : Plan} (h : (planner.build o).1 = .ok p) :
    p.record.objective = o.id ∧ p.record.Fits := by
  obtain ⟨cs, crown, -, hcomposes⟩ := composes_of_build h
  exact ⟨hcomposes.objective, hcomposes.short.fits⟩

end FlowGroups
