/-
JSON documents as they are written: members in order and repeated ones kept, numbers as numerals,
strings not yet checked to be text. `Document.value?` is where a document gets its meaning.
-/
import FlowGroups.Json.Token

namespace FlowGroups.Json

inductive Document
  | null
  | bool (b : Bool)
  | number (n : Numeral)
  | string (pieces : List Piece)
  | array (items : List Document)
  | object (members : List (List Piece × Document))
deriving Repr

/-! ## From tokens -/

/-- a container that is still open; what it holds so far is in reverse -/
inductive Frame
  | array (items : List Document)
  | object (members : List (List Piece × Document))
  /-- an object whose next member has its name already -/
  | member (members : List (List Piece × Document)) (name : List Piece)
deriving Repr

/-- what may come next -/
inductive Expect
  | value
  /-- a value, or the end of an array just opened -/
  | firstItem
  | name
  /-- a name, or the end of an object just opened -/
  | firstName
  | colon (name : List Piece)
  /-- a comma, or the end of the innermost container -/
  | more
  /-- nothing: the document is complete -/
  | finished (doc : Document)
deriving Repr

/-- a document half read: the open containers, innermost first -/
structure Parse where
  frames : List Frame
  expect : Expect
  /-- the most containers that were open at once -/
  deepest : Nat
deriving Repr

namespace Parse

def start : Parse := ⟨[], .value, 0⟩

/-- a value is complete -/
def close (p : Parse) (frames : List Frame) (doc : Document) : Option Parse :=
  match frames with
  | [] => some { p with frames := [], expect := .finished doc }
  | .array items :: outer =>
    some { p with frames := .array (doc :: items) :: outer, expect := .more }
  | .member members name :: outer =>
    some { p with frames := .object ((name, doc) :: members) :: outer, expect := .more }
  | .object _ :: _ => none

/-- a container is opened -/
def enter (p : Parse) (frame : Frame) (expect : Expect) : Parse :=
  let frames := frame :: p.frames
  ⟨frames, expect, max p.deepest frames.length⟩

/-- the token at the start of a value -/
def value (p : Parse) : Token → Option Parse
  | .null => p.close p.frames .null
  | .bool b => p.close p.frames (.bool b)
  | .number n => p.close p.frames (.number n)
  | .string pieces => p.close p.frames (.string pieces)
  | .openArray => some (p.enter (.array []) .firstItem)
  | .openObject => some (p.enter (.object []) .firstName)
  | _ => none

/-- the name of a member -/
def name (p : Parse) : Token → Option Parse
  | .string pieces => some { p with expect := .colon pieces }
  | _ => none

/-- the end of the innermost container -/
def finish (p : Parse) (t : Token) : Option Parse :=
  match t, p.frames with
  | .closeArray, .array items :: outer => p.close outer (.array items.reverse)
  | .closeObject, .object members :: outer => p.close outer (.object members.reverse)
  | _, _ => none

def step (p : Parse) (t : Token) : Option Parse :=
  match p.expect with
  | .value => p.value t
  | .firstItem => if t = .closeArray then p.finish t else p.value t
  | .name => p.name t
  | .firstName => if t = .closeObject then p.finish t else p.name t
  | .colon pieces =>
    match t, p.frames with
    | .colon, .object members :: outer =>
      some { p with frames := .member members pieces :: outer, expect := .value }
    | _, _ => none
  | .more =>
    match t, p.frames with
    | .comma, .array _ :: _ => some { p with expect := .value }
    | .comma, .object _ :: _ => some { p with expect := .name }
    | _, _ => p.finish t
  | .finished _ => none

end Parse

/-- the document in some text, and how deep its containers are nested -/
def Document.read? (text : Octets) : Option (Document × Nat) := do
  let tokens ← Scan.all? text
  let p ← tokens.foldlM Parse.step Parse.start
  match p.expect with
  | .finished doc => pure (doc, p.deepest)
  | _ => none

/-! ## Meaning -/

namespace Document

mutual

/-- every string has to be text and every number within range; repeated members are kept -/
def value? : Document → Option Value
  | .null => some .null
  | .bool b => some (.bool b)
  | .number n => n.number?.map .number
  | .string pieces => (Piece.text? pieces).map .string
  | .array items => (items? items).map .array
  | .object members => (members? members).map .object

def items? : List Document → Option (List Value)
  | [] => some []
  | d :: ds => do
    let v ← d.value?
    let vs ← items? ds
    pure (v :: vs)

def members? : List (List Piece × Document) → Option (List (String × Value))
  | [] => some []
  | (name, d) :: ms => do
    let name ← Piece.text? name
    let v ← d.value?
    let vs ← members? ms
    pure ((name, v) :: vs)

end

end Document

/-- containers may be nested this deep in a document that is read as a value -/
def Value.maxDepth : Nat := 127

/-- the value of some text: of members with one name the last counts -/
def Value.read? (text : Octets) : Option Value := do
  let (doc, depth) ← Document.read? text
  if depth ≤ maxDepth then
    let v ← doc.value?
    pure v.unique
  else none

end FlowGroups.Json
