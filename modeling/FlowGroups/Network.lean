/-
The names and numbers of the network: devices, applications, VLANs, ports, MPLS labels and
Ethernet addresses. Each is a type of its own, so that a port is never taken for a VLAN.
-/
import FlowGroups.Octets

namespace FlowGroups

/-- a device whose group table is managed -/
structure DeviceId where
  name : String
deriving DecidableEq, Repr

/-- the application that owns an objective and the groups made for it -/
structure AppId where
  name : String
deriving DecidableEq, Repr

/-- a VLAN id; only its low 12 bits reach the hardware -/
structure VlanId where
  val : UInt16
deriving DecidableEq, Repr

structure PortNumber where
  val : UInt64
deriving DecidableEq, Repr

structure MplsLabel where
  val : UInt32
deriving DecidableEq, Repr

/-- an Ethernet address, six bytes -/
structure MacAddress where
  octets : Vector UInt8 6
deriving DecidableEq, Repr

/-- the VLAN id as it stands in a group id -/
def VlanId.bits (v : VlanId) : UInt32 := v.val.toUInt32 &&& 0x0fff

namespace MacAddress

/-- the address used where a treatment sets none -/
def zero : MacAddress := ⟨Vector.replicate 6 0⟩

def toOctets (m : MacAddress) : Octets := m.octets.toList

def ofOctets? (bs : Octets) : Option MacAddress :=
  if h : bs.length = 6 then some ⟨⟨bs.toArray, by simpa using h⟩⟩ else none

/-- colon-separated pairs of hexadecimal digits -/
def text (m : MacAddress) : String := ":".intercalate (m.toOctets.map fun b => Octets.hex [b])

end MacAddress

end FlowGroups
