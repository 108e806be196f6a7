/-
The wire format of records: fields, each a key and a payload. A key is a varint that holds the
field's number and how its payload is delimited. Fields with unknown numbers are skipped, groups of
them too, which end at the end mark of their own number and nest only as deep as a budget allows.
-/
import FlowGroups.Octets

namespace FlowGroups.Wire

/-! ## Varints -/

/-- seven bits to a byte, least first; a high bit says that more follow -/
def writeVarint (n : Nat) : Octets :=
  if n < 128 then [UInt8.ofNat n] else UInt8.ofNat (n % 128 + 128) :: writeVarint (n / 128)
termination_by n
decreasing_by omega

/-- reads at most `places` bytes; the last of them may only be 0 or 1, so that ten hold 64 bits -/
def readVarint? : Nat → Octets → Option (Nat × Octets)
  | 0, _ => none
  | _, [] => none
  | places + 1, b :: rest =>
    if b < 128 then
      if places = 0 ∧ 2 ≤ b then none else some (b.toNat, rest)
    else (readVarint? places rest).map fun (n, rest) => (b.toNat % 128 + 128 * n, rest)

def varint? (bs : Octets) : Option (Nat × Octets) := readVarint? 10 bs

theorem readVarint?_length {places : Nat} {bs rest : Octets} {n : Nat}
    (h : readVarint? places bs = some (n, rest)) : rest.length < bs.length := by
  induction places generalizing bs n with
  | zero => simp [readVarint?] at h
  | succ places ih =>
    cases bs with
    | nil => simp [readVarint?] at h
    | cons b tail =>
      simp only [readVarint?] at h
      split at h
      · split at h
        · simp at h
        · simp only [Option.some.injEq, Prod.mk.injEq] at h
          simp [h.2]
      · simp only [Option.map_eq_some_iff, Prod.exists, Prod.mk.injEq] at h
        obtain ⟨m, r, hr, -, rfl⟩ := h
        have := ih hr
        simp only [List.length_cons]
        omega

/-! ## Delimited payloads -/

/-- as many bytes as asked for, if there are that many, and the rest -/
def take? (n : Nat) (bs : Octets) : Option (Octets × Octets) :=
  if n ≤ bs.length then some (bs.take n, bs.drop n) else none

theorem take?_length {n : Nat} {bs front rest : Octets} (h : take? n bs = some (front, rest)) :
    rest.length ≤ bs.length := by
  simp only [take?] at h
  split at h
  · simp only [Option.some.injEq, Prod.mk.injEq] at h
    simp [← h.2]
  · simp at h

/-- bytes behind their number -/
def writeBytes (bs : Octets) : Octets := writeVarint bs.length ++ bs

def readBytes? (bs : Octets) : Option (Octets × Octets) := do
  let (n, bs) ← varint? bs
  take? n bs

theorem readBytes?_length {bs front rest : Octets} (h : readBytes? bs = some (front, rest)) :
    rest.length < bs.length := by
  simp only [readBytes?, Option.bind_eq_bind, Option.bind_eq_some_iff, Prod.exists] at h
  obtain ⟨n, tail, hv, ht⟩ := h
  have := readVarint?_length hv
  have := take?_length ht
  omega

/-! ## Fields -/

/-- how a payload is delimited -/
inductive Delimiter
  | varint
  | fixed64
  | bytes
  | groupStart
  | groupEnd
  | fixed32
deriving DecidableEq, Repr

def Delimiter.ofCode? : Nat → Option Delimiter
  | 0 => some .varint
  | 1 => some .fixed64
  | 2 => some .bytes
  | 3 => some .groupStart
  | 4 => some .groupEnd
  | 5 => some .fixed32
  | _ => none

/-- the number and delimiter of the field that starts here; keys have 32 bits, numbers start at 1 -/
def key? (bs : Octets) : Option (Nat × Delimiter × Octets) := do
  let (key, rest) ← varint? bs
  if key < UInt32.size ∧ 8 ≤ key then
    let d ← Delimiter.ofCode? (key % 8)
    pure (key / 8, d, rest)
  else none

theorem key?_length {bs rest : Octets} {number : Nat} {d : Delimiter}
    (h : key? bs = some (number, d, rest)) : rest.length < bs.length := by
  simp only [key?, Option.bind_eq_bind, Option.bind_eq_some_iff, Prod.exists] at h
  obtain ⟨key, tail, hv, h⟩ := h
  have := readVarint?_length hv
  split at h
  · simp only [Option.bind_eq_some_iff, Option.pure_def, Option.some.injEq, Prod.mk.injEq] at h
    obtain ⟨_, -, -, -, rfl⟩ := h
    exact this
  · simp at h

/-- what a field holds, as far as a record may ask -/
inductive Payload
  | varint (n : Nat)
  | bytes (bs : Octets)
  | skipped
deriving DecidableEq, Repr

/-- a payload that is no group -/
def payload? (d : Delimiter) (bs : Octets) : Option (Payload × Octets) :=
  match d with
  | .varint => (varint? bs).map fun (n, rest) => (.varint n, rest)
  | .bytes => (readBytes? bs).map fun (front, rest) => (.bytes front, rest)
  | .fixed64 => (take? 8 bs).map fun (_, rest) => (.skipped, rest)
  | .fixed32 => (take? 4 bs).map fun (_, rest) => (.skipped, rest)
  | .groupStart | .groupEnd => none

theorem payload?_length {d : Delimiter} {bs rest : Octets} {p : Payload}
    (h : payload? d bs = some (p, rest)) : rest.length ≤ bs.length := by
  cases d <;>
    simp only [payload?, Option.map_eq_some_iff, Prod.exists, Prod.mk.injEq, reduceCtorEq] at h
  · obtain ⟨n, r, h, -, rfl⟩ := h
    exact Nat.le_of_lt (readVarint?_length h)
  · obtain ⟨n, r, h, -, rfl⟩ := h
    exact take?_length h
  · obtain ⟨n, r, h, -, rfl⟩ := h
    exact Nat.le_of_lt (readBytes?_length h)
  · obtain ⟨n, r, h, -, rfl⟩ := h
    exact take?_length h

/-- Skips to the end of a group. `opened` holds the numbers of the groups not ended yet, innermost
first; a field can be skipped only as long as there are fewer of them than the budget. -/
def skipGroups? (budget : Nat) (opened : List Nat) (bs : Octets) : Option Octets :=
  match hk : key? bs with
  | none => none
  | some (number, d, rest) =>
    match d, opened with
    | _, [] => none
    | .groupEnd, innermost :: outer =>
      if number = innermost then
        if outer = [] then some rest
        else
          have := key?_length hk
          skipGroups? budget outer rest
      else none
    | .groupStart, opened =>
      if opened.length < budget then
        have := key?_length hk
        skipGroups? budget (number :: opened) rest
      else none
    | d, opened =>
      if opened.length < budget then
        match hp : payload? d rest with
        | none => none
        | some (_, after) =>
          have := key?_length hk
          have := payload?_length hp
          skipGroups? budget opened after
      else none
termination_by bs.length

theorem skipGroups?_length {budget : Nat} {opened : List Nat} {bs rest : Octets}
    (h : skipGroups? budget opened bs = some rest) : rest.length ≤ bs.length := by
  fun_induction skipGroups? budget opened bs <;> grind [→ key?_length, → payload?_length]

/-- a field and the bytes after it -/
def field? (budget : Nat) (bs : Octets) : Option (Nat × Payload × Octets) := do
  let (number, d, rest) ← key? bs
  if d = .groupStart then
    let rest ← skipGroups? budget [number] rest
    pure (number, .skipped, rest)
  else
    let (p, rest) ← payload? d rest
    pure (number, p, rest)

theorem field?_length {budget : Nat} {bs rest : Octets} {number : Nat} {p : Payload}
    (h : field? budget bs = some (number, p, rest)) : rest.length < bs.length := by
  simp only [field?, Option.bind_eq_bind, Option.bind_eq_some_iff, Prod.exists] at h
  obtain ⟨n, d, tail, hk, h⟩ := h
  have := key?_length hk
  split at h
  · simp only [Option.bind_eq_some_iff, Option.pure_def, Option.some.injEq, Prod.mk.injEq] at h
    obtain ⟨r, hs, -, -, rfl⟩ := h
    have := skipGroups?_length hs
    omega
  · simp only [Option.bind_eq_some_iff, Prod.exists, Option.pure_def, Option.some.injEq,
      Prod.mk.injEq] at h
    obtain ⟨q, r, hp, -, -, rfl⟩ := h
    have := payload?_length hp
    omega

/-- all fields of a message -/
def fields? (budget : Nat) (bs : Octets) : Option (List (Nat × Payload)) :=
  if bs = [] then some []
  else
    match h : field? budget bs with
    | none => none
    | some (number, p, rest) =>
      have := field?_length h
      (fields? budget rest).map ((number, p) :: ·)
termination_by bs.length

end FlowGroups.Wire
