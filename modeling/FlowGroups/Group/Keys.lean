/-
Group keys. A key is derived from what a group is for, and like an id it starts with the tag of
the group's type; keys of one device and another differ by a hash of the device's name.
-/
import FlowGroups.Group.Layout

namespace FlowGroups

def DeviceId.octets (d : DeviceId) : Octets := d.name.toUTF8.toList

namespace Key

/-- the low six bits of the port stand as they are, the others go into the hash -/
def l2Interface (device : DeviceId) (vlan : VlanId) (port : PortNumber) : Key :=
  let low := (port.val &&& 0x3f).toUInt32
  let high := port.val &&& ~~~0x3f
  let hash := Hash.ofParts [device.octets, Word.big16 vlan.val, Word.big64 high]
  ofWord (Tag.l2Interface ||| (Tag.belowType &&& hash <<< 6) ||| low)

def l3Unicast (device : DeviceId) (src dst : MacAddress) (port : PortNumber) : Key :=
  let hash := Hash.ofParts [device.octets, src.toOctets, dst.toOctets, Word.big64 port.val]
  ofWord (Tag.l3Unicast ||| (Tag.belowType &&& hash))

def mplsInterface (device : DeviceId) (port : PortNumber) : Key :=
  let hash := Hash.ofParts [device.octets]
  ofWord (Tag.mplsInterface ||| (Tag.belowSubtype &&& (hash <<< 8 ||| port.val.toUInt32)))

def mplsL3Vpn (objective index : UInt32) : Key :=
  ofWord (Tag.mplsL3Vpn ||| (Tag.belowSubtype &&& (objective <<< 12 ||| index)))

def l3Ecmp (objective : UInt32) : Key := ofWord (GroupId.l3Ecmp objective).val

def l2Flood (objective : UInt32) : Key :=
  ofWord (Tag.l2Flood ||| (Tag.belowType &&& objective <<< 12))

end Key

end FlowGroups
