/-
The JSON form of objectives, and how it is read back. Integers have to be integers in range; an
instruction is its name, or an object with the one member that carries its operand; an objective is
an object, or the list of its fields in order.
-/
import FlowGroups.Objective
import FlowGroups.Json.Document

namespace FlowGroups

open Json (Value)

/-! ## Leaves -/

namespace Json.Value

def nat (n : Nat) : Value := .number (.integer n)

def uint8? (v : Value) : Option UInt8 := (v.below? UInt8.size).map UInt8.ofNat
def uint16? (v : Value) : Option UInt16 := (v.below? UInt16.size).map UInt16.ofNat
def uint32? (v : Value) : Option UInt32 := (v.below? UInt32.size).map UInt32.ofNat
def uint64? (v : Value) : Option UInt64 := (v.below? UInt64.size).map UInt64.ofNat

/-- the name and operand of a variant: an object has to have exactly one member -/
def variant? : Value → Option (String × Option Value)
  | .string name => some (name, none)
  | .object [(name, v)] => some (name, some v)
  | _ => none

end Json.Value

def VlanId.toJson (v : VlanId) : Value := .nat v.val.toNat
def VlanId.ofJson? (v : Value) : Option VlanId := v.uint16?.map VlanId.mk

def PortNumber.toJson (p : PortNumber) : Value := .nat p.val.toNat
def PortNumber.ofJson? (v : Value) : Option PortNumber := v.uint64?.map PortNumber.mk

def GroupId.toJson (g : GroupId) : Value := .nat g.val.toNat
def GroupId.ofJson? (v : Value) : Option GroupId := v.uint32?.map GroupId.mk

def MplsLabel.toJson (l : MplsLabel) : Value := .nat l.val.toNat
def MplsLabel.ofJson? (v : Value) : Option MplsLabel := v.uint32?.map MplsLabel.mk

def MacAddress.toJson (m : MacAddress) : Value := .array (m.toOctets.map fun b => .nat b.toNat)

def MacAddress.ofJson? (v : Value) : Option MacAddress := do
  let items ← v.array?
  let bs ← items.mapM Value.uint8?
  ofOctets? bs

/-! ## Instructions and treatments -/

namespace Instruction

def toJson : Instruction → Value
  | .output port => .object [("output", port.toJson)]
  | .setEthSrc mac => .object [("set_eth_src", mac.toJson)]
  | .setEthDst mac => .object [("set_eth_dst", mac.toJson)]
  | .setVlanId vlan => .object [("set_vlan_id", vlan.toJson)]
  | .popVlan => .string "pop_vlan"
  | .pushVlan => .string "push_vlan"
  | .setVlanPcp pcp => .object [("set_vlan_pcp", .nat pcp.toNat)]
  | .pushMpls => .string "push_mpls"
  | .popMpls => .string "pop_mpls"
  | .setMplsLabel label => .object [("set_mpls_label", label.toJson)]
  | .setMplsBos bos => .object [("set_mpls_bos", .bool bos)]
  | .decMplsTtl => .string "dec_mpls_ttl"
  | .copyTtlOut => .string "copy_ttl_out"
  | .group id => .object [("group", id.toJson)]

/-- an instruction without operand may also be written with the operand null -/
def bare (i : Instruction) : Option Value → Option Instruction
  | none | some .null => some i
  | some _ => none

/-- the instruction of a name, with its operand -/
def ofVariant? (name : String) (operand : Option Value) : Option Instruction :=
  match name with
  | "output" => operand.bind fun v => (PortNumber.ofJson? v).map .output
  | "set_eth_src" => operand.bind fun v => (MacAddress.ofJson? v).map .setEthSrc
  | "set_eth_dst" => operand.bind fun v => (MacAddress.ofJson? v).map .setEthDst
  | "set_vlan_id" => operand.bind fun v => (VlanId.ofJson? v).map .setVlanId
  | "pop_vlan" => bare .popVlan operand
  | "push_vlan" => bare .pushVlan operand
  | "set_vlan_pcp" => operand.bind fun v => v.uint8?.map .setVlanPcp
  | "push_mpls" => bare .pushMpls operand
  | "pop_mpls" => bare .popMpls operand
  | "set_mpls_label" => operand.bind fun v => (MplsLabel.ofJson? v).map .setMplsLabel
  | "set_mpls_bos" => operand.bind fun v => v.bool?.map .setMplsBos
  | "dec_mpls_ttl" => bare .decMplsTtl operand
  | "copy_ttl_out" => bare .copyTtlOut operand
  | "group" => operand.bind fun v => (GroupId.ofJson? v).map .group
  | _ => none

def ofJson? (v : Value) : Option Instruction := do
  let (name, operand) ← v.variant?
  ofVariant? name operand

end Instruction

def Treatment.toJson (t : Treatment) : Value := .array (t.instructions.map Instruction.toJson)

def Treatment.ofJson? (v : Value) : Option Treatment := do
  let items ← v.array?
  let instructions ← items.mapM Instruction.ofJson?
  pure ⟨instructions⟩

/-! ## Selectors -/

namespace Criterion

def toJson : Criterion → Value
  | .vlanVid vlan => .object [("vlan_vid", vlan.toJson)]
  | .inPort port => .object [("in_port", port.toJson)]
  | .ethType type => .object [("eth_type", .nat type.toNat)]

def ofJson? (v : Value) : Option Criterion := do
  let (name, operand) ← v.variant?
  let v ← operand
  match name with
  | "vlan_vid" => (VlanId.ofJson? v).map .vlanVid
  | "in_port" => (PortNumber.ofJson? v).map .inPort
  | "eth_type" => v.uint16?.map .ethType
  | _ => none

end Criterion

def Selector.toJson (s : Selector) : Value := .array (s.criteria.map Criterion.toJson)

def Selector.ofJson? (v : Value) : Option Selector := do
  let items ← v.array?
  let criteria ← items.mapM Criterion.ofJson?
  pure ⟨criteria⟩

/-! ## Objectives -/

def ObjectiveKind.ofJson? (v : Value) : Option ObjectiveKind := v.string?.bind ofName?

namespace Objective

/-- null stands for no metadata -/
def hintsToJson : Option Selector → Value
  | none => .null
  | some s => s.toJson

def hintsOfJson? : Value → Option (Option Selector)
  | .null => some none
  | v => (Selector.ofJson? v).map some

/-- the members of an objective, with the kind's name as it is given -/
def membersWith (o : Objective) (kind : Value) : List (String × Value) :=
  [("id", .nat o.id.toNat), ("type", kind),
    ("treatments", .array (o.treatments.map Treatment.toJson)),
    ("app_id", .string o.app.name), ("meta", hintsToJson o.hints)]

def toJson (o : Objective) : Value := .object (o.membersWith (.string o.kind.name))

/-- an objective from its fields; without metadata there is no hint -/
def ofFields? (id kind treatments app : Value) (hints : Option Value) : Option Objective := do
  let id ← id.uint32?
  let kind ← ObjectiveKind.ofJson? kind
  let items ← treatments.array?
  let treatments ← items.mapM Treatment.ofJson?
  let app ← app.string?
  let hints ← match hints with
    | none => some none
    | some v => hintsOfJson? v
  pure ⟨id, kind, treatments, ⟨app⟩, hints⟩

/-- an objective from its members; others beside them do not matter -/
def ofMembers? (members : List (String × Value)) : Option Objective := do
  let id ← Value.member? members "id"
  let kind ← Value.member? members "type"
  let treatments ← Value.member? members "treatments"
  let app ← Value.member? members "app_id"
  ofFields? id kind treatments app (Value.member? members "meta")

def ofJson? : Value → Option Objective
  | .object members => ofMembers? members
  | .array [id, kind, treatments, app] => ofFields? id kind treatments app none
  | .array [id, kind, treatments, app, hints] => ofFields? id kind treatments app (some hints)
  | _ => none

/-! ## Text -/

def memberNames : List String := ["id", "type", "treatments", "app_id", "meta"]

/-- The members of an objective among those of a document, each at most once. What stands under
other names is passed over unread, so it may hold anything that is well formed. -/
def knownMembers? : List (List Json.Piece × Json.Document) → Option (List (String × Value))
  | [] => some []
  | (name, doc) :: rest => do
    let name ← Json.Piece.text? name
    let members ← knownMembers? rest
    if name ∈ memberNames then
      if members.any fun m => m.1 == name then none
      else
        let v ← doc.value?
        pure ((name, v) :: members)
    else pure members

/-- reads an objective straight from its text -/
def read? (text : Octets) : Option Objective := do
  let (doc, _) ← Json.Document.read? text
  match doc with
  | .object members => (knownMembers? members).bind ofMembers?
  | doc => doc.value?.bind ofJson?

end Objective

end FlowGroups
