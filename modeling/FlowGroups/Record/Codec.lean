/-
Records as bytes: field 1 is the objective's id, and each field 2 a chain, itself a message whose
fields 1 are the keys.
-/
import FlowGroups.Record
import FlowGroups.Record.Wire
import FlowGroups.Objective.Error

namespace FlowGroups

/-- how deep messages and groups may nest -/
def Wire.maxNesting : Nat := 100

namespace Record

/-! ## Writing -/

def encodeChain (keys : List Key) : Octets := keys.flatMap fun k => 0x0a :: Wire.writeBytes k.octets

/-- the id is written even if it is zero -/
def encode (r : Record) : Octets :=
  0x08 :: Wire.writeVarint r.objective.toNat ++
    r.chains.flatMap fun chain => 0x12 :: Wire.writeBytes (encodeChain chain)

/-! ## Reading -/

/-- takes up a field of a chain -/
def addKey (keys : List Key) : Nat × Wire.Payload → Option (List Key)
  | (1, .bytes bs) => some (keys ++ [⟨bs⟩])
  | (1, _) => none
  | _ => some keys

def decodeChain? (bs : Octets) : Option (List Key) := do
  let fields ← Wire.fields? (Wire.maxNesting - 1) bs
  fields.foldlM addKey []

/-- takes up a field of a record: the last id counts, and only its low 32 bits -/
def addField (r : Record) : Nat × Wire.Payload → Option Record
  | (1, .varint n) => some { r with objective := UInt32.ofNat n }
  | (2, .bytes bs) => (decodeChain? bs).map fun chain => { r with chains := r.chains ++ [chain] }
  | (1, _) | (2, _) => none
  | _ => some r

def decode? (bs : Octets) : Option Record := do
  let fields ← Wire.fields? Wire.maxNesting bs
  fields.foldlM addField ⟨0, []⟩

def decode (bs : Octets) : Except StoreError Record :=
  match decode? bs with
  | some r => .ok r
  | none => .error .undecodableRecord

end Record

end FlowGroups
