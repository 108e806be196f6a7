/-
Replay files: a JSON array whose entries say what to do with which objective. Every entry is read
on its own, so a bad one does not spoil the others.
-/
import FlowGroups.Objective.Error
import FlowGroups.Objective.Json
import FlowGroups.Json.Decimal

namespace FlowGroups

open Json (Value)

/-- what is done with an objective -/
inductive Operation
  | add
  | addBucket
  | removeBucket
  | remove
deriving DecidableEq, Repr

namespace Operation

def name : Operation → String
  | .add => "add"
  | .addBucket => "add_bucket"
  | .removeBucket => "remove_bucket"
  | .remove => "remove"

def toJson (op : Operation) : Value := .string op.name

def ofName? : String → Option Operation
  | "add" => some .add
  | "add_bucket" => some .addBucket
  | "remove_bucket" => some .removeBucket
  | "remove" => some .remove
  | _ => none

/-- a name, alone or with null beside it -/
def ofJson? (v : Value) : Option Operation := do
  let (name, operand) ← v.variant?
  match operand with
  | none | some .null => ofName? name
  | some _ => none

end Operation

structure Entry where
  op : Operation
  objective : Objective
deriving DecidableEq, Repr

namespace Entry

/-- The members with the kind spelled out: a code becomes the name of the kind it stands for. A name
or a number that stands for no kind is refused before anything else is looked at. -/
def spellKind (members : List (String × Value)) :
    Except ObjectiveError (List (String × Value)) :=
  match Value.member? members "type" with
  | some (.string name) => do
    let _ ← ObjectiveKind.ofName name
    pure members
  | some (.number n) => do
    let kind ← ObjectiveKind.ofCode ((Value.number n).below? 256) n.text
    pure (Value.setMember members "type" (.string kind.name))
  | _ => pure members

/-- the operation among some members; to add is what an entry without one asks for -/
def operation (members : List (String × Value)) : Except ObjectiveError Operation :=
  match Value.member? members "op" with
  | none => .ok .add
  | some v =>
    match Operation.ofJson? v with
    | some op => .ok op
    | none => .error (.malformed "op")

def readObjective (v : Value) : Except ObjectiveError Objective :=
  match Objective.ofJson? v with
  | some o => .ok o
  | none => .error (.malformed "objective")

/-- reads an entry; one that is a list of fields has no operation of its own -/
def ofJson : Value → Except ObjectiveError Entry
  | .object members => do
    let members ← spellKind members
    let op ← operation members
    let o ← readObjective (.object (Value.without members "op"))
    pure ⟨op, o⟩
  | v => do
    let o ← readObjective v
    pure ⟨.add, o⟩

end Entry

/-- why a replay file cannot be used at all -/
inductive ReplayError
  | notJson
  | notArray
deriving DecidableEq, Repr

def ReplayError.message : ReplayError → String
  | notJson => "error parsing objectives file as JSON"
  | notArray => "objectives file must hold a JSON array"

namespace Replay

/-- an entry, or why it is passed over -/
abbrev Line := Except ObjectiveError Entry

def ofJson : Value → Except ReplayError (List Line)
  | .array items => .ok (items.map Entry.ofJson)
  | _ => .error .notArray

def read (text : Octets) : Except ReplayError (List Line) :=
  match Value.read? text with
  | none => .error .notJson
  | some v => ofJson v

end Replay

end FlowGroups
