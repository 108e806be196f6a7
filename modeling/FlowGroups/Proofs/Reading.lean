/-
Objectives in JSON and back. Whatever is written is read as what it was: integers of every width, addresses,
instructions with and without operand, criteria, and the objective put together from them.

- `member?_setMember`, `member?_without`, `member?_of_perm`: what is found under a name after members are written, left
  out or put in another order; an objective is read from what is found and from nothing else (`ofMembers?_congr`).
- `ObjectiveKind.ofName?_iff`: the names of a kind are its name with any letters in lower case.
- `Instruction.ofJson?_toJson`, `Criterion.ofJson?_toJson`: one case for each kind.
- `Objective.ofMembers?_of_written`: an objective is read back, however the name of its kind is spelled.
-/
import Mathlib
import FlowGroups.Replay

namespace FlowGroups

open Json (Value)

/-! ## Members -/

namespace Json.Value

variable {members others : List (String × Value)} {name : String} {v : Value}

theorem member?_cons (m : String × Value) (members : List (String × Value)) (name : String) :
    member? (m :: members) name = if m.1 = name then some m.2 else member? members name := by
  rw [member?, List.find?_cons]
  by_cases h : m.1 = name
  · rw [if_pos h, beq_iff_eq.2 h]
    rfl
  · rw [if_neg h, beq_eq_false_iff_ne.2 h]
    rfl

theorem member?_eq_none (h : name ∉ members.map Prod.fst) : member? members name = none := by
  induction members with
  | nil => rfl
  | cons m members ih =>
    rw [List.map_cons, List.mem_cons, not_or] at h
    rw [member?_cons, if_neg (Ne.symm h.1), ih h.2]

theorem member?_of_mem (h : (members.map Prod.fst).Nodup) (hm : (name, v) ∈ members) :
    member? members name = some v := by
  induction members with
  | nil => exact absurd hm List.not_mem_nil
  | cons m members ih =>
    obtain ⟨hnot, hrest⟩ := List.nodup_cons.1 h
    rw [member?_cons]
    rcases List.mem_cons.1 hm with rfl | hm
    · exact if_pos rfl
    · have hne : m.1 ≠ name := fun heq => hnot (heq ▸ List.mem_map_of_mem hm)
      rw [if_neg hne, ih hrest hm]

/-- where no name is repeated, the order of the members does not matter -/
theorem member?_of_perm (hp : members.Perm others) (h : (others.map Prod.fst).Nodup) (name : String) :
    member? members name = member? others name := by
  have hnames : (members.map Prod.fst).Perm (others.map Prod.fst) := hp.map _
  by_cases hmem : name ∈ others.map Prod.fst
  · obtain ⟨⟨n, v⟩, hm, rfl⟩ := List.mem_map.1 hmem
    rw [member?_of_mem h hm, member?_of_mem (hnames.nodup_iff.2 h) (hp.mem_iff.2 hm)]
  · rw [member?_eq_none hmem, member?_eq_none fun hm => hmem (hnames.mem_iff.1 hm)]

theorem member?_without (members : List (String × Value)) (name other : String) :
    member? (without members name) other = if other = name then none else member? members other := by
  induction members with
  | nil => exact (ite_self none).symm
  | cons m members ih =>
    rw [without] at ih ⊢
    by_cases hm : m.1 = name
    · rw [List.filter_cons_of_neg (by simp [hm]), ih, member?_cons, hm]
      split_ifs with ho hn
      · rfl
      · exact absurd hn.symm ho
      · rfl
    · rw [List.filter_cons_of_pos (by simp [hm]), member?_cons, member?_cons, ih]
      split_ifs with hmo ho
      · exact absurd (hmo.trans ho) hm
      · rfl
      · rfl
      · rfl

/-- every value is replaced, depending on its name -/
theorem member?_map (f : String → Value → Value) (members : List (String × Value)) (name : String) :
    member? (members.map fun m => (m.1, f m.1 m.2)) name = (member? members name).map (f name) := by
  induction members with
  | nil => rfl
  | cons m members ih =>
    rw [List.map_cons, member?_cons, member?_cons, ih]
    split_ifs with h
    · rw [h]
      rfl
    · rfl

theorem member?_setMember (members : List (String × Value)) (name : String) (v : Value) (other : String) :
    member? (setMember members name v) other = if other = name then some v else member? members other := by
  rw [setMember]
  by_cases hany : (members.any fun m => m.1 == name) = true
  · have hmap : (members.map fun m => if m.1 = name then (name, v) else m) =
        members.map fun m => (m.1, if m.1 = name then v else m.2) := by
      refine List.map_congr_left fun m _ => ?_
      split_ifs with hm
      · rw [hm]
      · rfl
    rw [if_pos hany]
    simp only [beq_iff_eq]
    rw [hmap, member?_map fun n w => if n = name then v else w]
    split_ifs with ho
    · obtain ⟨m, hm, hname⟩ := List.any_eq_true.1 hany
      have hfound : (member? members name).isSome = true := by
        rw [member?, Option.isSome_map, List.find?_isSome]
        exact ⟨m, hm, hname⟩
      obtain ⟨w, hw⟩ := Option.isSome_iff_exists.1 hfound
      rw [ho, hw]
      rfl
    · exact Option.map_id'
  · have hnone : member? members name = none := by
      rw [member?, Option.map_eq_none_iff, List.find?_eq_none]
      intro m hm hname
      exact hany (List.any_eq_true.2 ⟨m, hm, hname⟩)
    rw [if_neg hany]
    have happend : member? (members ++ [(name, v)]) other = (member? members other).or (member? [(name, v)] other) := by
      simp only [member?, List.find?_append, Option.map_or]
    rw [happend, member?_cons]
    by_cases ho : other = name
    · rw [ho, hnone, if_pos rfl, if_pos rfl]
      rfl
    · rw [if_neg (Ne.symm ho), if_neg ho]
      exact Option.or_none

/-! ## Leaves -/

theorem below?_nat {n bound : Nat} (h : n < bound) : (nat n).below? bound = some n := if_pos h

theorem uint8?_nat (x : UInt8) : (nat x.toNat).uint8? = some x := by
  rw [uint8?, below?_nat x.toNat_lt_size, Option.map_some, UInt8.ofNat_toNat]

theorem uint16?_nat (x : UInt16) : (nat x.toNat).uint16? = some x := by
  rw [uint16?, below?_nat x.toNat_lt_size, Option.map_some, UInt16.ofNat_toNat]

theorem uint32?_nat (x : UInt32) : (nat x.toNat).uint32? = some x := by
  rw [uint32?, below?_nat x.toNat_lt_size, Option.map_some, UInt32.ofNat_toNat]

theorem uint64?_nat (x : UInt64) : (nat x.toNat).uint64? = some x := by
  rw [uint64?, below?_nat x.toNat_lt_size, Option.map_some, UInt64.ofNat_toNat]

/-- a list is read back if each of its entries is -/
theorem mapM_map {α : Type} {write : α → Value} {read : Value → Option α} (h : ∀ x, read (write x) = some x)
    (xs : List α) : (xs.map write).mapM read = some xs := by
  induction xs with
  | nil => rfl
  | cons x xs ih =>
    rw [List.map_cons, List.mapM_cons, h, ih]
    rfl

end Json.Value

theorem VlanId.ofJson?_toJson (v : VlanId) : ofJson? v.toJson = some v := by
  rw [ofJson?, toJson, Value.uint16?_nat, Option.map_some]

theorem PortNumber.ofJson?_toJson (p : PortNumber) : ofJson? p.toJson = some p := by
  rw [ofJson?, toJson, Value.uint64?_nat, Option.map_some]

theorem GroupId.ofJson?_toJson (g : GroupId) : ofJson? g.toJson = some g := by
  rw [ofJson?, toJson, Value.uint32?_nat, Option.map_some]

theorem MplsLabel.ofJson?_toJson (l : MplsLabel) : ofJson? l.toJson = some l := by
  rw [ofJson?, toJson, Value.uint32?_nat, Option.map_some]

theorem MacAddress.ofOctets?_toOctets (m : MacAddress) : ofOctets? m.toOctets = some m := by
  have hlen : m.toOctets.length = 6 := by simp [toOctets]
  rw [ofOctets?, dif_pos hlen]
  rfl

theorem MacAddress.ofJson?_toJson (m : MacAddress) : ofJson? m.toJson = some m := by
  simp only [ofJson?, toJson, Value.array?, Option.bind_eq_bind, Option.bind_some,
    Value.mapM_map Value.uint8?_nat, ofOctets?_toOctets]

/-! ## Instructions and criteria -/

theorem Instruction.ofJson?_toJson (i : Instruction) : ofJson? i.toJson = some i := by
  cases i with
  | output port => simp [ofJson?, toJson, Value.variant?, ofVariant?, PortNumber.ofJson?_toJson]
  | setEthSrc mac => simp [ofJson?, toJson, Value.variant?, ofVariant?, MacAddress.ofJson?_toJson]
  | setEthDst mac => simp [ofJson?, toJson, Value.variant?, ofVariant?, MacAddress.ofJson?_toJson]
  | setVlanId vlan => simp [ofJson?, toJson, Value.variant?, ofVariant?, VlanId.ofJson?_toJson]
  | setVlanPcp pcp => simp [ofJson?, toJson, Value.variant?, ofVariant?, Value.uint8?_nat]
  | setMplsLabel label => simp [ofJson?, toJson, Value.variant?, ofVariant?, MplsLabel.ofJson?_toJson]
  | setMplsBos bos => rfl
  | group id => simp [ofJson?, toJson, Value.variant?, ofVariant?, GroupId.ofJson?_toJson]
  | popVlan | pushVlan | pushMpls | popMpls | decMplsTtl | copyTtlOut => rfl

theorem Treatment.ofJson?_toJson (t : Treatment) : ofJson? t.toJson = some t := by
  simp [ofJson?, toJson, Value.array?, Value.mapM_map Instruction.ofJson?_toJson]

theorem Criterion.ofJson?_toJson (c : Criterion) : ofJson? c.toJson = some c := by
  cases c with
  | vlanVid vlan => simp [ofJson?, toJson, Value.variant?, VlanId.ofJson?_toJson]
  | inPort port => simp [ofJson?, toJson, Value.variant?, PortNumber.ofJson?_toJson]
  | ethType type => simp [ofJson?, toJson, Value.variant?, Value.uint16?_nat]

theorem Selector.ofJson?_toJson (s : Selector) : ofJson? s.toJson = some s := by
  simp [ofJson?, toJson, Value.array?, Value.mapM_map Criterion.ofJson?_toJson]

theorem Operation.ofJson?_toJson (op : Operation) : ofJson? op.toJson = some op := by
  cases op <;> rfl

/-! ## Kinds -/

/-- letters in ASCII, by their numbers -/
theorem toNat_toUpper (c : Char) :
    c.toUpper.toNat = if 97 ≤ c.toNat ∧ c.toNat ≤ 122 then c.toNat - 32 else c.toNat := by
  have hmem : ('a'.val ≤ c.val ∧ c.val ≤ 'z'.val) ↔ 97 ≤ c.toNat ∧ c.toNat ≤ 122 := Iff.rfl
  rw [Char.toUpper]
  split_ifs with h h' h'
  · change (c.val + ('A'.val - 'a'.val)).toNat = c.toNat - 32
    rw [UInt32.toNat_add]
    change (c.toNat + 4294967264) % 4294967296 = c.toNat - 32
    omega
  · exact absurd (hmem.1 h) h'
  · exact absurd (hmem.2 h') h
  · rfl

theorem toNat_toLower (c : Char) :
    c.toLower.toNat = if 65 ≤ c.toNat ∧ c.toNat ≤ 90 then c.toNat + 32 else c.toNat := by
  have hmem : (c.val ≥ 'A'.val ∧ c.val ≤ 'Z'.val) ↔ 65 ≤ c.toNat ∧ c.toNat ≤ 90 := Iff.rfl
  rw [Char.toLower]
  split_ifs with h h' h'
  · change (c.val + ('a'.val - 'A'.val)).toNat = c.toNat + 32
    rw [UInt32.toNat_add]
    change (c.toNat + 32) % 4294967296 = c.toNat + 32
    omega
  · exact absurd (hmem.1 h) h'
  · exact absurd (hmem.2 h') h
  · rfl

theorem map_toUpper_iff {cs ds : List Char} (hds : ∀ d ∈ ds, 65 ≤ d.toNat ∧ d.toNat ≤ 90) :
    cs.map Char.toUpper = ds ↔ List.Forall₂ (fun c d => c = d ∨ c = d.toLower) cs ds := by
  induction cs generalizing ds with
  | nil => cases ds <;> simp
  | cons c cs ih =>
    cases ds with
    | nil => simp
    | cons d ds =>
      have hd := hds d List.mem_cons_self
      have hletter : c.toUpper = d ↔ c = d ∨ c = d.toLower := by
        rw [← Char.toNat_inj, ← Char.toNat_inj, ← Char.toNat_inj, toNat_toUpper, toNat_toLower, if_pos hd]
        split_ifs <;> omega
      rw [List.map_cons, List.cons.injEq, List.forall₂_cons, hletter,
        ih fun d hd' => hds d (List.mem_cons_of_mem _ hd')]

namespace ObjectiveKind

variable {kind : ObjectiveKind} {s : String}

/-- the text is the kind's name, with any of its letters in lower case -/
def IsName (kind : ObjectiveKind) (s : String) : Prop :=
  List.Forall₂ (fun c d => c = d ∨ c = d.toLower) s.toList kind.name.toList

/-- kinds are numbered in the order they are declared in -/
def code : ObjectiveKind → Int
  | .hashed => 0
  | .broadcast => 1
  | .failover => 2
  | .simple => 3

theorem ofName?_iff : ofName? s = some kind ↔ kind.IsName s := by
  have hupper : ofName? s = some kind ↔ s.toUpper = kind.name := by
    unfold ofName?
    split <;> cases kind <;> simp_all [name]
  have hletters : ∀ d ∈ kind.name.toList, 65 ≤ d.toNat ∧ d.toNat ≤ 90 := by
    cases kind <;> simp [name]
  rw [hupper, ← String.toList_inj, String.toUpper, String.toList_map, map_toUpper_iff hletters, IsName]

theorem isName_name (kind : ObjectiveKind) : kind.IsName kind.name := List.forall₂_same.2 fun _ _ => .inl rfl

end ObjectiveKind

/-! ## Objectives -/

namespace Objective

/-- an objective is read from what stands under the names of its fields -/
theorem ofMembers?_congr {members others : List (String × Value)}
    (h : ∀ name ∈ memberNames, Value.member? members name = Value.member? others name) :
    ofMembers? members = ofMembers? others := by
  simp only [memberNames, List.forall_mem_cons] at h
  obtain ⟨hid, hkind, htreatments, happ, hhints, -⟩ := h
  simp only [ofMembers?, hid, hkind, htreatments, happ, hhints]

theorem hintsOfJson?_hintsToJson (hints : Option Selector) : hintsOfJson? (hintsToJson hints) = some hints := by
  cases hints with
  | none => rfl
  | some s =>
    change (Selector.ofJson? s.toJson).map some = some (some s)
    rw [Selector.ofJson?_toJson]
    rfl

/-- an objective is read back, with any spelling of the name of its kind -/
theorem ofMembers?_of_written (o : Objective) {s : String} (h : o.kind.IsName s) :
    ofMembers? (o.membersWith (.string s)) = some o := by
  have hkind : ObjectiveKind.ofJson? (.string s) = some o.kind := ObjectiveKind.ofName?_iff.2 h
  change ofFields? (.nat o.id.toNat) (.string s) (.array (o.treatments.map Treatment.toJson)) (.string o.app.name)
    (some (hintsToJson o.hints)) = some o
  simp [ofFields?, Value.uint32?_nat, hkind, Value.array?, Value.mapM_map Treatment.ofJson?_toJson, Value.string?,
    hintsOfJson?_hintsToJson]

/-- what is written is read back -/
theorem ofJson?_toJson (o : Objective) : ofJson? o.toJson = some o := o.ofMembers?_of_written o.kind.isName_name

end Objective

end FlowGroups
