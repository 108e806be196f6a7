/-
Entries of a replay file. The kind is looked at before anything else, and it alone decides whether an entry is of
unknown kind; every other fault is a matter of bad parameters, and an entry without one is read as what it says.

- `UnknownKind`: no kind goes by the name or the number that is given.
- `ofJson_of_namesNoKind`, `ofJson_of_known`: the error of an entry of unknown kind, and what is left to read of others.
- `entries_judged_alone`: what becomes of each entry of an array, whatever stands beside it.
- `written_entry_reads_back`: an objective that is written with an operation, or without one, is read back.
-/
import FlowGroups.Proofs.Reading

namespace FlowGroups

open Json (Value)

namespace ObjectiveKind

/-- the ways to write a kind -/
inductive Spelled (kind : ObjectiveKind) : Value → Prop
  | name {s : String} (h : kind.IsName s) : kind.Spelled (.string s)
  | code : kind.Spelled (.number (.integer kind.code))

theorem code_mem (kind : ObjectiveKind) : 0 ≤ kind.code ∧ kind.code ≤ 3 := by
  cases kind <;> decide

theorem exists_code {i : Int} (h : 0 ≤ i ∧ i ≤ 3) : ∃ kind : ObjectiveKind, kind.code = i := by
  obtain ⟨h0, h3⟩ := h
  have hcases : i = 0 ∨ i = 1 ∨ i = 2 ∨ i = 3 := by omega
  rcases hcases with rfl | rfl | rfl | rfl
  · exact ⟨.hashed, rfl⟩
  · exact ⟨.broadcast, rfl⟩
  · exact ⟨.failover, rfl⟩
  · exact ⟨.simple, rfl⟩

theorem ofCode?_iff {n : Nat} {kind : ObjectiveKind} : ofCode? n = some kind ↔ (n : Int) = kind.code := by
  unfold ofCode?
  split <;> cases kind <;> simp_all [code] <;> omega

/-- a number is a code only if it is an integer, and one of a kind -/
theorem ofCode?_below?_iff {n : Json.Number} {kind : ObjectiveKind} :
    ((Value.number n).below? 256).bind ofCode? = some kind ↔ n = .integer kind.code := by
  have hle := kind.code_mem
  cases n with
  | double bits => simp [Value.below?]
  | integer i =>
    rw [Json.Number.integer.injEq]
    cases i with
    | negSucc m =>
      have hne : Int.negSucc m ≠ kind.code := by omega
      simp [Value.below?, hne]
    | ofNat m =>
      rw [Value.below?]
      split_ifs with hm
      · exact ofCode?_iff
      · have hne : (m : Int) ≠ kind.code := by omega
        simp [hne]

end ObjectiveKind

namespace Entry

variable {members : List (String × Value)}

/-- a text is given that is no name of a kind, or a number that is none of the integers from 0 to 3 -/
inductive NamesNoKind (members : List (String × Value)) : String → Prop
  | name {s : String} (hs : Value.member? members "type" = some (.string s))
      (h : ∀ kind : ObjectiveKind, ¬kind.IsName s) : NamesNoKind members s
  | code {n : Json.Number} (hn : Value.member? members "type" = some (.number n))
      (h : ∀ i : Int, 0 ≤ i → i ≤ 3 → n ≠ .integer i) : NamesNoKind members ("type code " ++ n.text)

def UnknownKind (members : List (String × Value)) : Prop := ∃ given, NamesNoKind members given

/-- the operation is given and can be read, or none is given and it is to add -/
def AsksFor (members : List (String × Value)) (op : Operation) : Prop :=
  match Value.member? members "op" with
  | none => op = .add
  | some v => Operation.ofJson? v = some op

/-- a kind that is given by its code is spelled out -/
def spelledOut : Value → Value
  | .number (.integer 0) => .string "HASHED"
  | .number (.integer 1) => .string "BROADCAST"
  | .number (.integer 2) => .string "FAILOVER"
  | .number (.integer 3) => .string "SIMPLE"
  | v => v

/-- the members but for the operation, with the kind spelled out -/
def rest (members : List (String × Value)) : List (String × Value) :=
  (Value.without members "op").map fun m => (m.1, if m.1 = "type" then spelledOut m.2 else m.2)

theorem spelledOut_code (kind : ObjectiveKind) : spelledOut (.number (.integer kind.code)) = .string kind.name := by
  cases kind <;> rfl

theorem member?_rest (members : List (String × Value)) (name : String) :
    Value.member? (rest members) name = if name = "op" then none
      else if name = "type" then (Value.member? members "type").map spelledOut else Value.member? members name := by
  rw [rest, Value.member?_map fun n v => if n = "type" then spelledOut v else v, Value.member?_without]
  by_cases hop : name = "op"
  · rw [if_pos hop, if_pos hop]
    rfl
  · rw [if_neg hop, if_neg hop]
    split_ifs with htype
    · rw [htype]
    · exact Option.map_id'

/-! ## The kind comes first -/

/-- `spelled` are the members with the kind spelled out -/
def Spells (members spelled : List (String × Value)) : Prop :=
  ∀ name, Value.member? spelled name =
    if name = "type" then (Value.member? members "type").map spelledOut else Value.member? members name

theorem spells_self (h : (Value.member? members "type").map spelledOut = Value.member? members "type") :
    Spells members members := by
  intro name
  split_ifs with hname
  · rw [hname, h]
  · rfl

theorem spells_setMember {kind : ObjectiveKind}
    (h : Value.member? members "type" = some (.number (.integer kind.code))) :
    Spells members (Value.setMember members "type" (.string kind.name)) := by
  intro name
  rw [Value.member?_setMember, h, Option.map_some, spelledOut_code]

theorem spellKind_of_namesNoKind {given : String} (h : NamesNoKind members given) :
    spellKind members = .error (.unknownKind given) := by
  cases h with
  | name hs h =>
    have hnone : ObjectiveKind.ofName? given = none :=
      Option.eq_none_iff_forall_ne_some.2 fun kind hkind => h kind (ObjectiveKind.ofName?_iff.1 hkind)
    rw [spellKind, hs]
    simp only [ObjectiveKind.ofName, hnone]
    rfl
  | @code n hn h =>
    have hnone : ((Value.number n).below? 256).bind ObjectiveKind.ofCode? = none :=
      Option.eq_none_iff_forall_ne_some.2 fun kind hkind =>
        h kind.code kind.code_mem.1 kind.code_mem.2 (ObjectiveKind.ofCode?_below?_iff.1 hkind)
    rw [spellKind, hn]
    simp only [ObjectiveKind.ofCode, hnone]
    rfl

theorem spellKind_of_known (h : ¬UnknownKind members) :
    ∃ spelled, spellKind members = .ok spelled ∧ Spells members spelled := by
  rw [spellKind]
  cases htype : Value.member? members "type" with
  | none => exact ⟨members, rfl, spells_self (by rw [htype]; rfl)⟩
  | some v =>
    cases v with
    | string s =>
      have hname : ∃ kind : ObjectiveKind, kind.IsName s := by
        by_contra hno
        exact h ⟨s, .name htype fun kind hkind => hno ⟨kind, hkind⟩⟩
      obtain ⟨kind, hkind⟩ := hname
      refine ⟨members, ?_, spells_self (by rw [htype]; rfl)⟩
      simp only [ObjectiveKind.ofName, ObjectiveKind.ofName?_iff.2 hkind]
      rfl
    | number n =>
      have hcode : ∃ kind : ObjectiveKind, n = .integer kind.code := by
        by_contra hno
        refine h ⟨_, .code htype fun i h0 h3 hn => ?_⟩
        obtain ⟨kind, rfl⟩ := ObjectiveKind.exists_code ⟨h0, h3⟩
        exact hno ⟨kind, hn⟩
      obtain ⟨kind, rfl⟩ := hcode
      refine ⟨_, ?_, spells_setMember htype⟩
      have hkind : ((Value.number (.integer kind.code)).below? 256).bind ObjectiveKind.ofCode? = some kind :=
        ObjectiveKind.ofCode?_below?_iff.2 rfl
      simp only [ObjectiveKind.ofCode, hkind]
      rfl
    | null | bool | array | object => exact ⟨members, rfl, spells_self (by rw [htype]; rfl)⟩

theorem known_of_spelled {kind : ObjectiveKind} {v : Value} (hv : kind.Spelled v)
    (htype : Value.member? members "type" = some v) : ¬UnknownKind members := by
  rintro ⟨given, ⟨hs, h⟩ | ⟨hn, h⟩⟩
  · cases htype.symm.trans hs
    cases hv with
    | name hname => exact h kind hname
  · cases htype.symm.trans hn
    cases hv with
    | code => exact h kind.code kind.code_mem.1 kind.code_mem.2 rfl

/-! ## What an entry is read as -/

theorem operation_eq_ok_iff {op : Operation} : operation members = .ok op ↔ AsksFor members op := by
  rw [operation, AsksFor]
  cases Value.member? members "op" with
  | none => simp [eq_comm]
  | some v => cases h : Operation.ofJson? v <;> simp [h]

theorem readObjective_eq_ok_iff {v : Value} {o : Objective} :
    readObjective v = .ok o ↔ Objective.ofJson? v = some o := by
  rw [readObjective]
  cases Objective.ofJson? v <;> simp

theorem operation_error {err : ObjectiveError} (h : operation members = .error err) : err = .malformed "op" := by
  rw [operation] at h
  split at h
  · cases h
  · split at h <;> cases h
    rfl

theorem readObjective_error {v : Value} {err : ObjectiveError} (h : readObjective v = .error err) :
    err = .malformed "objective" := by
  rw [readObjective] at h
  split at h <;> cases h
  rfl

theorem ofJson_of_namesNoKind {given : String} (h : NamesNoKind members given) :
    ofJson (.object members) = .error (.unknownKind given) := by
  rw [ofJson, spellKind_of_namesNoKind h]
  rfl

/-- where the kind is known, what is left to read is the operation and the rest -/
theorem ofJson_of_known (h : ¬UnknownKind members) :
    ofJson (.object members) =
      (operation members).bind fun op => (readObjective (.object (rest members))).bind fun o => .ok ⟨op, o⟩ := by
  -- the members may stand elsewhere once the kind is spelled out, but nothing else is found under any name
  obtain ⟨spelled, hspelled, hlook⟩ := spellKind_of_known h
  have hop : operation spelled = operation members := by
    rw [operation, hlook "op", if_neg (by decide), operation]
  have hrest : Objective.ofJson? (.object (Value.without spelled "op")) = Objective.ofJson? (.object (rest members)) :=
    Objective.ofMembers?_congr fun name _ => by rw [Value.member?_without, member?_rest, hlook name]
  have hread : readObjective (.object (Value.without spelled "op")) = readObjective (.object (rest members)) := by
    rw [readObjective, readObjective, hrest]
  rw [ofJson, hspelled, ← hop, ← hread]
  rfl

theorem ofJson_eq_ok_iff (h : ¬UnknownKind members) {e : Entry} :
    ofJson (.object members) = .ok e ↔
      AsksFor members e.op ∧ Objective.ofJson? (.object (rest members)) = some e.objective := by
  rw [ofJson_of_known h, ← operation_eq_ok_iff, ← readObjective_eq_ok_iff]
  cases operation members with
  | error err => simp [Except.bind]
  | ok op =>
    cases readObjective (.object (rest members)) with
    | error err => simp [Except.bind]
    | ok o =>
      cases e
      simp [Except.bind]

theorem ofJson_error (h : ¬UnknownKind members) {err : ObjectiveError}
    (herr : ofJson (.object members) = .error err) : err = .malformed "op" ∨ err = .malformed "objective" := by
  rw [ofJson_of_known h] at herr
  cases hop : operation members with
  | error err' =>
    rw [hop] at herr
    cases herr
    exact .inl (operation_error hop)
  | ok op =>
    cases ho : readObjective (.object (rest members)) with
    | error err' =>
      rw [hop, ho] at herr
      cases herr
      exact .inr (readObjective_error ho)
    | ok o =>
      rw [hop, ho] at herr
      cases herr

/-! ## Entries of a file -/

/-- the entry is passed over with an error of the category -/
def Fails (line : Replay.Line) (category : ObjectiveError.Category) : Prop :=
  ∃ err, line = .error err ∧ err.category = category

/-- what becomes of an entry with some members -/
structure Judged (members : List (String × Value)) (line : Replay.Line) : Prop where
  /-- the kind alone decides this, whatever the other members are -/
  unknown : Fails line .unknown ↔ UnknownKind members
  named : ∀ given, NamesNoKind members given → line = .error (.unknownKind given)
  accepted : ¬UnknownKind members → ∀ e, line = .ok e ↔
    AsksFor members e.op ∧ Objective.ofJson? (.object (rest members)) = some e.objective
  malformed : ¬UnknownKind members → (¬∃ e, line = .ok e) → Fails line .badParams

theorem judged_ofJson (members : List (String × Value)) : Judged members (ofJson (.object members)) where
  unknown := by
    constructor
    · rintro ⟨err, herr, hcategory⟩
      by_contra h
      rcases ofJson_error h herr with rfl | rfl <;> cases hcategory
    · rintro ⟨given, h⟩
      exact ⟨_, ofJson_of_namesNoKind h, rfl⟩
  named _ h := ofJson_of_namesNoKind h
  accepted h _ := ofJson_eq_ok_iff h
  malformed h hnot := by
    cases hline : ofJson (.object members) with
    | ok e => exact absurd ⟨e, hline⟩ hnot
    | error err => rcases ofJson_error h hline with rfl | rfl <;> exact ⟨_, rfl, rfl⟩

/-- An array is read entry by entry: there is one result for each entry, in order, and it depends on nothing else. An
entry that is an object is of unknown kind by its kind alone; else it is read if its operation and the rest can be, and
has bad parameters if not. -/
theorem entries_judged_alone (items : List Value) :
    ∃ lines, Replay.ofJson (.array items) = .ok lines ∧ lines.length = items.length ∧
      (∀ text, Value.read? text = some (.array items) → Replay.read text = .ok lines) ∧
      (∀ others lines', Replay.ofJson (.array others) = .ok lines' →
        ∀ i j : Nat, items[i]? = others[j]? → lines[i]? = lines'[j]?) ∧
      ∀ (i : Nat) members, items[i]? = some (.object members) →
        ∃ line, lines[i]? = some line ∧ Judged members line := by
  refine ⟨items.map ofJson, rfl, List.length_map _, ?_, ?_, ?_⟩
  · intro text htext
    rw [Replay.read, htext]
    rfl
  · rintro others _ ⟨⟩ i j hij
    rw [List.getElem?_map, List.getElem?_map, hij]
  · intro i members hi
    exact ⟨_, by rw [List.getElem?_map, hi]; rfl, judged_ofJson members⟩

/-- an operation that is no text, with a kind that does not exist and with one that does -/
def twoFaults : List Value :=
  [.object [("op", .nat 7), ("type", .nat 4)], .object [("op", .nat 7), ("type", .nat 3)]]

theorem two_faults_judged_alone :
    ∃ lines, Replay.read "[\x7b\"op\":7,\"type\":4\x7d,\x7b\"op\":7,\"type\":3\x7d]".toUTF8.toList = .ok lines ∧
      lines.length = 2 ∧ (∃ line, lines[0]? = some line ∧ Fails line .unknown) ∧
      (∃ line, lines[1]? = some line ∧ Fails line .badParams) ∧
      ∀ alone, Replay.ofJson (.array [twoFaults[1]]) = .ok alone → lines[1]? = alone[0]? := by
  obtain ⟨lines, -, hlength, htext, halone, hjudged⟩ := entries_judged_alone twoFaults
  refine ⟨lines, htext _ (by cbv), hlength, ?_, ?_, fun alone h => halone _ alone h 1 0 rfl⟩
  · obtain ⟨line, hline, hj⟩ := hjudged 0 _ rfl
    refine ⟨line, hline, hj.unknown.2 ⟨_, .code rfl fun i h0 h3 hi => ?_⟩⟩
    cases hi
    omega
  · obtain ⟨line, hline, hj⟩ := hjudged 1 _ rfl
    have hsimple : ObjectiveKind.simple.Spelled (.nat 3) := .code
    have hknown : ¬UnknownKind [("op", .nat 7), ("type", .nat 3)] := known_of_spelled hsimple rfl
    refine ⟨line, hline, hj.malformed hknown ?_⟩
    rintro ⟨e, he⟩
    obtain ⟨hop, -⟩ := (hj.accepted hknown e).1 he
    cases hop

/-! ## Entries that are written -/

theorem exists_name_of_spelled {kind : ObjectiveKind} {v : Value} (hv : kind.Spelled v) :
    ∃ s, spelledOut v = .string s ∧ kind.IsName s := by
  cases hv with
  | name hname => exact ⟨_, rfl, hname⟩
  | code => exact ⟨_, spelledOut_code kind, kind.isName_name⟩

/-- An objective is written, its kind is spelled in any letters or given by its code, and what to do with it is added,
or nothing is: in whatever order the members stand, the entry is read back as that objective and that operation. -/
theorem written_entry_reads_back (o : Objective) (op : Option Operation) {written members : List (String × Value)}
    {kind : Value} (hwritten : o.toJson = .object written) (hkind : o.kind.Spelled kind)
    (hmembers : members.Perm
      (Value.setMember written "type" kind ++ (op.map fun op => ("op", op.toJson)).toList)) :
    ofJson (.object members) = .ok ⟨op.getD .add, o⟩ := by
  cases hwritten
  change members.Perm (o.membersWith kind ++ _) at hmembers
  have hnodup : ((o.membersWith kind ++ (op.map fun op => ("op", op.toJson)).toList).map Prod.fst).Nodup := by
    cases op <;> simp [Objective.membersWith]
  -- no name is repeated, so it is enough to look in the order they are written in
  have hlook := Value.member?_of_perm hmembers hnodup
  have htype : Value.member? members "type" = some kind := hlook "type"
  refine (ofJson_eq_ok_iff (known_of_spelled hkind htype)).2 ⟨?_, ?_⟩
  · rw [AsksFor, hlook "op"]
    cases op with
    | none => rfl
    | some op => exact op.ofJson?_toJson
  · obtain ⟨s, hs, hname⟩ := exists_name_of_spelled hkind
    refine Eq.trans ?_ (o.ofMembers?_of_written hname)
    refine Objective.ofMembers?_congr fun name hname => ?_
    rw [member?_rest, hlook name, htype, Option.map_some, hs]
    simp only [Objective.memberNames, List.mem_cons, List.not_mem_nil, or_false] at hname
    rcases hname with rfl | rfl | rfl | rfl | rfl <;> rfl

/-- a backup path beside an empty one -/
def backupPath : Objective :=
  ⟨7, .failover, [⟨[.setVlanId ⟨10⟩, .popVlan, .output ⟨3⟩]⟩, ⟨[]⟩], ⟨"a"⟩, some ⟨[.vlanVid ⟨10⟩]⟩⟩

theorem backup_path_reads_back :
    ofJson (.object (("op", .string "remove_bucket") :: backupPath.membersWith (.string "FailOver"))) =
        .ok ⟨.removeBucket, backupPath⟩ ∧
      ofJson (.object (backupPath.membersWith (.nat 2)).reverse) = .ok ⟨.add, backupPath⟩ :=
  ⟨written_entry_reads_back backupPath (some .removeBucket) rfl
      (.name (ObjectiveKind.ofName?_iff.1 (by cbv))) (List.perm_append_singleton _ _).symm,
    written_entry_reads_back backupPath none rfl .code (List.reverse_perm _)⟩

end Entry

end FlowGroups
