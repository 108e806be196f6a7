/-
JSON values: what a document means once its text is gone. An integer of up to 64 bits is kept as
it is; every other number is a double, held as its bit pattern.
-/

namespace FlowGroups.Json

inductive Number
  /-- from the least signed to the greatest unsigned number of 64 bits -/
  | integer (n : Int)
  | double (bits : UInt64)
deriving DecidableEq, Repr

/-- members keep the order they were written in -/
inductive Value
  | null
  | bool (b : Bool)
  | number (n : Number)
  | string (s : String)
  | array (items : List Value)
  | object (members : List (String × Value))
deriving Repr

namespace Value

/-- the natural number below `bound` that the value is -/
def below? (bound : Nat) : Value → Option Nat
  | .number (.integer (.ofNat n)) => if n < bound then some n else none
  | _ => none

def string? : Value → Option String
  | .string s => some s
  | _ => none

def bool? : Value → Option Bool
  | .bool b => some b
  | _ => none

def array? : Value → Option (List Value)
  | .array items => some items
  | _ => none

/-- the value of a name among some members -/
def member? (members : List (String × Value)) (name : String) : Option Value :=
  (members.find? fun m => m.1 == name).map (·.2)

/-- members without the ones of a name -/
def without (members : List (String × Value)) (name : String) : List (String × Value) :=
  members.filter fun m => m.1 != name

/-- sets a member: a name that is there keeps its place and takes the new value -/
def setMember (members : List (String × Value)) (name : String) (v : Value) :
    List (String × Value) :=
  if members.any fun m => m.1 == name then
    members.map fun m => if m.1 == name then (name, v) else m
  else members ++ [(name, v)]

/-- one member for each name, with the value written last -/
def lastOfEach (members : List (String × Value)) : List (String × Value) :=
  members.foldl (fun ms m => setMember ms m.1 m.2) []

mutual

/-- the value with one member for each name in every object -/
def unique : Value → Value
  | .array items => .array (uniqueItems items)
  | .object members => .object (lastOfEach (uniqueMembers members))
  | .null => .null
  | .bool b => .bool b
  | .number n => .number n
  | .string s => .string s

def uniqueItems : List Value → List Value
  | [] => []
  | v :: vs => v.unique :: uniqueItems vs

def uniqueMembers : List (String × Value) → List (String × Value)
  | [] => []
  | (name, v) :: ms => (name, v.unique) :: uniqueMembers ms

end

end Value

end FlowGroups.Json
