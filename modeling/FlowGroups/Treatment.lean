/-
Treatments: what is done to a packet, as a list of instructions carried out in order.
-/
import FlowGroups.Network

namespace FlowGroups

/-- the 32-bit identifier of a group on a device -/
structure GroupId where
  val : UInt32
deriving DecidableEq, Repr

/-- eight hexadecimal digits after 0x -/
def GroupId.text (g : GroupId) : String := "0x" ++ Octets.hex (Word.big32 g.val)

inductive Instruction
  | output (port : PortNumber)
  | setEthSrc (mac : MacAddress)
  | setEthDst (mac : MacAddress)
  | setVlanId (vlan : VlanId)
  | popVlan
  | pushVlan
  | setVlanPcp (pcp : UInt8)
  | pushMpls
  | popMpls
  | setMplsLabel (label : MplsLabel)
  | setMplsBos (bos : Bool)
  | decMplsTtl
  | copyTtlOut
  | group (id : GroupId)
deriving DecidableEq, Repr

/-- does the instruction change the layer 2 header? -/
def Instruction.isL2Modification : Instruction → Bool
  | .output _ | .copyTtlOut | .group _ => false
  | _ => true

structure Treatment where
  instructions : List Instruction
deriving DecidableEq, Repr

namespace Treatment

/-- the first port the treatment outputs to -/
def outputPort? (t : Treatment) : Option PortNumber :=
  t.instructions.findSome? fun
    | .output port => some port
    | _ => none

/-- the first VLAN the treatment sets -/
def vlanId? (t : Treatment) : Option VlanId :=
  t.instructions.findSome? fun
    | .setVlanId vlan => some vlan
    | _ => none

/-- the first MPLS label the treatment sets -/
def mplsLabel? (t : Treatment) : Option MplsLabel :=
  t.instructions.findSome? fun
    | .setMplsLabel label => some label
    | _ => none

/-- does the treatment set the source or the destination address? -/
def setsMac (t : Treatment) : Bool :=
  t.instructions.any fun
    | .setEthSrc _ | .setEthDst _ => true
    | _ => false

/-- how many MPLS headers the treatment pushes -/
def mplsPushes (t : Treatment) : Nat := t.instructions.count .pushMpls

end Treatment

end FlowGroups
