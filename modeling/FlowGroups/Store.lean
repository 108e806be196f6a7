/-
The store of records: a map from byte strings to byte strings in the order of its keys. A record
stands under the four bytes of its objective's id, most significant first, so that the order of the
keys is the order of the ids.
-/
import FlowGroups.Record.Codec

namespace FlowGroups

/-- the entries in ascending order of their keys -/
structure Store where
  entries : List (Octets × Octets)
deriving DecidableEq, Repr

namespace Store

def empty : Store := ⟨[]⟩

/-! ## Bytes -/

/-- writes a value at the place of its key -/
def place (k v : Octets) : List (Octets × Octets) → List (Octets × Octets)
  | [] => [(k, v)]
  | e :: es =>
    if k < e.1 then (k, v) :: e :: es else if k = e.1 then (k, v) :: es else e :: place k v es

def getOctets? (s : Store) (k : Octets) : Option Octets :=
  (s.entries.find? fun e => e.1 = k).map Prod.snd

/-- writes bytes under an id, whether they are a record or not -/
def putOctets (s : Store) (id : UInt32) (v : Octets) : Store := ⟨place (Word.big32 id) v s.entries⟩

/-! ## Records -/

/-- the record of an objective, if there is one -/
def get (s : Store) (id : UInt32) : Except StoreError (Option Record) :=
  match s.getOctets? (Word.big32 id) with
  | none => .ok none
  | some bs => (Record.decode bs).map some

/-- writes a record over the one of the same objective -/
def put (s : Store) (r : Record) : Store := s.putOctets r.objective r.encode

/-- removes what stands under an id and gives it back; it is gone even if it is no record -/
def remove (s : Store) (id : UInt32) : Store × Except StoreError (Option Record) :=
  (⟨s.entries.filter fun e => e.1 ≠ Word.big32 id⟩, s.get id)

/-- every record, by ascending id -/
def list (s : Store) : Except StoreError (List Record) :=
  s.entries.mapM fun e => Record.decode e.2

end Store

end FlowGroups
