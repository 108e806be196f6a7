/-
The layout of group ids. The top four bits of an id say which type of group it names, for MPLS
groups the next four say which subtype, and the bits below are the type's own.
-/
import FlowGroups.Group
import FlowGroups.Group.Hash

namespace FlowGroups

/-! ## Type tags and fields -/

namespace Tag

def l2Interface : UInt32 := 0x00000000
def l3Unicast : UInt32 := 0x20000000
def l2Flood : UInt32 := 0x40000000
def l3Ecmp : UInt32 := 0x70000000
def mplsInterface : UInt32 := 0x90000000
def mplsL3Vpn : UInt32 := 0x92000000

/-- the bits below the type -/
def belowType : UInt32 := 0x0fffffff

/-- the bits below the type and the MPLS subtype -/
def belowSubtype : UInt32 := 0x00ffffff

end Tag

/-! ## Ids -/

namespace GroupId

/-- the group that sends out of a port on a VLAN -/
def l2Interface (vlan : VlanId) (port : PortNumber) : GroupId :=
  ⟨Tag.l2Interface ||| vlan.bits <<< 16 ||| (port.val.toUInt32 &&& 0xffff)⟩

/-- the group that sets both addresses on the way to a port -/
def l3Unicast (src dst : MacAddress) (port : PortNumber) : GroupId :=
  ⟨Tag.l3Unicast |||
    (Tag.belowType &&& Hash.ofParts [src.toOctets, dst.toOctets, Word.big64 port.val])⟩

/-- the group that carries labelled packets to a port -/
def mplsInterface (port : PortNumber) : GroupId :=
  ⟨Tag.mplsInterface ||| (port.val.toUInt32 &&& Tag.belowSubtype)⟩

/-- the group that pushes a label, by its index in the order of allocation -/
def mplsL3Vpn (index : UInt32) : GroupId := ⟨Tag.mplsL3Vpn ||| (index &&& Tag.belowSubtype)⟩

/-- the group that balances the load of an objective -/
def l3Ecmp (objective : UInt32) : GroupId :=
  ⟨Tag.l3Ecmp ||| (Tag.belowType &&& objective <<< 12)⟩

/-- the group that floods the packets of an objective on a VLAN -/
def l2Flood (vlan : VlanId) (objective : UInt32) : GroupId :=
  ⟨Tag.l2Flood ||| vlan.bits <<< 16 ||| (objective &&& 0xffff)⟩

end GroupId

/-! ## Reading an id back -/

/-- a group id taken apart -/
inductive Layout
  | l2Interface (vlan : UInt16) (port : UInt32)
  | l3Unicast (index : UInt32)
  | mplsInterface (index : UInt32)
  | mplsL3Vpn (index : UInt32)
  | l3Ecmp (index : UInt32)
  | l2Flood (vlan : UInt16) (index : UInt32)
deriving DecidableEq, Repr

/-- the layout of an id, if its type (and subtype) is a known one -/
def GroupId.layout? (id : GroupId) : Option Layout :=
  let raw := id.val
  let vlan := ((raw >>> 16) &&& 0x0fff).toUInt16
  match raw >>> 28 with
  | 0x0 => some (.l2Interface vlan (raw &&& 0xffff))
  | 0x2 => some (.l3Unicast (raw &&& Tag.belowType))
  | 0x4 => some (.l2Flood vlan (raw &&& 0xffff))
  | 0x7 => some (.l3Ecmp ((raw &&& Tag.belowType) >>> 12))
  | 0x9 =>
    match (raw >>> 24) &&& 0xf with
    | 0x0 => some (.mplsInterface (raw &&& Tag.belowSubtype))
    | 0x2 => some (.mplsL3Vpn (raw &&& Tag.belowSubtype))
    | _ => none
  | _ => none

end FlowGroups
