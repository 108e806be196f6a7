/-
Groups as a device holds them: the key the controller knows a group by, its buckets, the request
that creates it, and the events a device reports about it.
-/
import FlowGroups.Treatment

namespace FlowGroups

/-- the controller's name for a group; the device never looks inside it -/
structure Key where
  octets : Octets
deriving DecidableEq, Repr

namespace Key

def ofWord (x : UInt32) : Key := ⟨Word.big32 x⟩

/-- two hexadecimal digits for each byte, after 0x -/
def text (k : Key) : String := "0x" ++ Octets.hex k.octets

/-- reads the form that `text` writes -/
def ofText? (s : String) : Option Key :=
  match s.toList with
  | '0' :: 'x' :: digits => (Octets.ofHexChars? digits).map Key.mk
  | _ => none

/-! Keys are ordered byte by byte, a proper start of a key before the key. -/

instance : LT Key := ⟨fun a b => a.octets < b.octets⟩

instance : DecidableLT Key := fun a b => inferInstanceAs (Decidable (a.octets < b.octets))

/-- puts a key at its place in an ascending list; one that is there already is not repeated -/
def place (k : Key) : List Key → List Key
  | [] => [k]
  | j :: js => if k < j then k :: j :: js else if k = j then j :: js else j :: place k js

/-- the distinct keys of a list in ascending order -/
def ascending (ks : List Key) : List Key := ks.foldr place []

end Key

inductive GroupKind
  /-- one bucket -/
  | indirect
  /-- copy to every bucket -/
  | all
  /-- one bucket for each flow -/
  | select
deriving DecidableEq, Repr

structure Bucket where
  treatment : Treatment
deriving DecidableEq, Repr

/-- the bucket that hands packets on to another group -/
def Bucket.toGroup (id : GroupId) : Bucket := ⟨⟨[.group id]⟩⟩

/-- a request to create a group, or the group itself once it exists -/
structure Descriptor where
  device : DeviceId
  kind : GroupKind
  buckets : List Bucket
  key : Key
  id : GroupId
  app : AppId
deriving DecidableEq, Repr

inductive EventKind
  | added
  | removed
  | error
deriving DecidableEq, Repr

/-- what a device reports about the group under a key -/
structure Event where
  kind : EventKind
  key : Key
deriving DecidableEq, Repr

end FlowGroups
