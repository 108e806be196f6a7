/-
Reading ids back. An id is made by laying fields side by side below the tag of its type. Numbers that are wider than
their field lose their upper bits, and never reach the field next to it or the tag.

- `layout?_of_number`: what is laid into the fields of an id is read from it.
- `ids_read_back`: whatever a group is made for, its id is read as its own type with the lower bits of its numbers; so
  ids of different types are different, and two ids of one type are equal exactly if these lower bits are.
-/
import FlowGroups.Proofs.Flooding

namespace FlowGroups

/-! ## Layouts as numbers -/

namespace Layout

/-- does each field have room for its number? -/
def Fits : Layout → Prop
  | l2Interface vlan port => vlan.toNat < 2 ^ 12 ∧ port.toNat < 2 ^ 16
  | l3Unicast index => index.toNat < 2 ^ 28
  | mplsInterface index => index.toNat < 2 ^ 24
  | mplsL3Vpn index => index.toNat < 2 ^ 24
  | l3Ecmp index => index.toNat < 2 ^ 16
  | l2Flood vlan index => vlan.toNat < 2 ^ 12 ∧ index.toNat < 2 ^ 16

/-- the tag of the type -/
def tag : Layout → UInt32
  | l2Interface .. => Tag.l2Interface
  | l3Unicast _ => Tag.l3Unicast
  | mplsInterface _ => Tag.mplsInterface
  | mplsL3Vpn _ => Tag.mplsL3Vpn
  | l3Ecmp _ => Tag.l3Ecmp
  | l2Flood .. => Tag.l2Flood

/-- the id that has these fields -/
def number : Layout → Nat
  | l2Interface vlan port => 2 ^ 16 * vlan.toNat + port.toNat
  | l3Unicast index => 2 ^ 28 * 2 + index.toNat
  | mplsInterface index => 2 ^ 24 * 144 + index.toNat
  | mplsL3Vpn index => 2 ^ 24 * 146 + index.toNat
  | l3Ecmp index => 2 ^ 28 * 7 + 2 ^ 12 * index.toNat
  | l2Flood vlan index => 2 ^ 28 * 4 + 2 ^ 16 * vlan.toNat + index.toNat

end Layout

namespace GroupId

variable {id : GroupId}

theorem vlan_field {vlan : UInt16} (h : id.val.toNat / 2 ^ 16 % 2 ^ 12 = vlan.toNat) :
    ((id.val >>> 16) &&& 0x0fff).toUInt16 = vlan := by
  have hfield : (id.val >>> 16) &&& 0x0fff = vlan.toUInt32 :=
    Word.field_eq (j := 16) (i := 12) rfl rfl (by rw [UInt16.toNat_toUInt32, h])
  rw [hfield, UInt16.toUInt16_toUInt32]

/-- **What is laid into the fields of an id is read from it.** -/
theorem layout?_of_number {l : Layout} (hfits : l.Fits) (h : id.val.toNat = l.number) : id.layout? = some l := by
  have hunder {type : UInt32} (htype : id.val.toNat / 2 ^ 28 = type.toNat) : id.val >>> 28 = type :=
    Word.shiftRight_eq (j := 28) rfl htype
  have hsubtype {sub : UInt32} (hsub : id.val.toNat / 2 ^ 24 % 2 ^ 4 = sub.toNat) : (id.val >>> 24) &&& 0xf = sub :=
    Word.field_eq (j := 24) (i := 4) rfl rfl hsub
  cases l with
  | l2Interface vlan port =>
    obtain ⟨hvlan, hport⟩ := hfits
    simp only [Layout.number] at h
    have htype : id.val >>> 28 = 0 := hunder (by simp; omega)
    have hv : ((id.val >>> 16) &&& 0x0fff).toUInt16 = vlan := vlan_field (by omega)
    have hp : id.val &&& 0xffff = port := Word.and_mask_eq (i := 16) rfl (by omega)
    simp only [layout?, htype, hv, hp]
  | l3Unicast index =>
    simp only [Layout.number, Layout.Fits] at h hfits
    have htype : id.val >>> 28 = 2 := hunder (by simp; omega)
    have hi : id.val &&& Tag.belowType = index := Word.and_mask_eq (i := 28) rfl (by omega)
    simp only [layout?, htype, hi]
  | mplsInterface index =>
    simp only [Layout.number, Layout.Fits] at h hfits
    have htype : id.val >>> 28 = 9 := hunder (by simp; omega)
    have hsub : (id.val >>> 24) &&& 0xf = 0 := hsubtype (by simp; omega)
    have hi : id.val &&& Tag.belowSubtype = index := Word.and_mask_eq (i := 24) rfl (by omega)
    simp only [layout?, htype, hsub, hi]
  | mplsL3Vpn index =>
    simp only [Layout.number, Layout.Fits] at h hfits
    have htype : id.val >>> 28 = 9 := hunder (by simp; omega)
    have hsub : (id.val >>> 24) &&& 0xf = 2 := hsubtype (by simp; omega)
    have hi : id.val &&& Tag.belowSubtype = index := Word.and_mask_eq (i := 24) rfl (by omega)
    simp only [layout?, htype, hsub, hi]
  | l3Ecmp index =>
    simp only [Layout.number, Layout.Fits] at h hfits
    have htype : id.val >>> 28 = 7 := hunder (by simp; omega)
    have hi : (id.val &&& Tag.belowType) >>> 12 = index := by
      refine Word.shiftRight_eq (j := 12) rfl ?_
      rw [Word.toNat_and_mask (i := 28) rfl]
      omega
    simp only [layout?, htype, hi]
  | l2Flood vlan index =>
    obtain ⟨hvlan, hindex⟩ := hfits
    simp only [Layout.number] at h
    have htype : id.val >>> 28 = 4 := hunder (by simp; omega)
    have hv : ((id.val >>> 16) &&& 0x0fff).toUInt16 = vlan := vlan_field (by omega)
    have hi : id.val &&& 0xffff = index := Word.and_mask_eq (i := 16) rfl (by omega)
    simp only [layout?, htype, hv, hi]

end GroupId

/-! ## What ids are made for -/

/-- what the id of a group is made from; each type of group has a way of its own -/
inductive Purpose
  | l2Interface (vlan : VlanId) (port : PortNumber)
  | l3Unicast (src dst : MacAddress) (port : PortNumber)
  | mplsInterface (port : PortNumber)
  | mplsL3Vpn (index : UInt32)
  | l3Ecmp (objective : UInt32)
  | l2Flood (vlan : VlanId) (objective : UInt32)
deriving DecidableEq

namespace Purpose

def id : Purpose → GroupId
  | l2Interface vlan port => .l2Interface vlan port
  | l3Unicast src dst port => .l3Unicast src dst port
  | mplsInterface port => .mplsInterface port
  | mplsL3Vpn index => .mplsL3Vpn index
  | l3Ecmp objective => .l3Ecmp objective
  | l2Flood vlan objective => .l2Flood vlan objective

/-- the tag of its type -/
def tag : Purpose → UInt32
  | l2Interface .. => Tag.l2Interface
  | l3Unicast .. => Tag.l3Unicast
  | mplsInterface _ => Tag.mplsInterface
  | mplsL3Vpn _ => Tag.mplsL3Vpn
  | l3Ecmp _ => Tag.l3Ecmp
  | l2Flood .. => Tag.l2Flood

/-- the fields of its id, each with the lower bits of a number -/
def layout : Purpose → Layout
  | l2Interface vlan port => .l2Interface (.ofNat (vlan.val.toNat % 2 ^ 12)) (.ofNat (port.val.toNat % 2 ^ 16))
  | l3Unicast src dst port =>
    .l3Unicast (.ofNat ((Hash.ofParts [src.toOctets, dst.toOctets, Word.big64 port.val]).toNat % 2 ^ 28))
  | mplsInterface port => .mplsInterface (.ofNat (port.val.toNat % 2 ^ 24))
  | mplsL3Vpn index => .mplsL3Vpn (.ofNat (index.toNat % 2 ^ 24))
  | l3Ecmp objective => .l3Ecmp (.ofNat (objective.toNat % 2 ^ 16))
  | l2Flood vlan objective => .l2Flood (.ofNat (vlan.val.toNat % 2 ^ 12)) (.ofNat (objective.toNat % 2 ^ 16))

theorem tag_eq (u : Purpose) : u.tag = u.layout.tag := by
  cases u <;> rfl

theorem toNat_cut (x : Nat) {i : Nat} (hi : i ≤ 32) : (UInt32.ofNat (x % 2 ^ i)).toNat = x % 2 ^ i := by
  have hlt : x % 2 ^ i < 2 ^ 32 := (Nat.mod_lt _ (Nat.two_pow_pos i)).trans_le (Nat.pow_le_pow_right (by decide) hi)
  exact UInt32.toNat_ofNat_of_lt hlt

theorem toNat_vlan (vlan : VlanId) : (UInt16.ofNat (vlan.val.toNat % 2 ^ 12)).toNat = vlan.val.toNat % 2 ^ 12 :=
  UInt16.toNat_ofNat_of_lt ((Nat.mod_lt _ (by decide)).trans (by decide))

/-- numbers that are cut to the width of their fields fit -/
theorem fits_layout (u : Purpose) : u.layout.Fits := by
  cases u <;>
    simp only [layout, Layout.Fits, toNat_vlan, toNat_cut, Nat.reduceLeDiff, Nat.mod_lt, Nat.two_pow_pos, and_self]

/-- the id has the fields of its layout, and nothing spills over -/
theorem toNat_id (u : Purpose) : u.id.val.toNat = u.layout.number := by
  cases u with
  | l2Interface vlan port =>
    rw [id, layout, Layout.number, toNat_vlan, toNat_cut _ (by decide), GroupId.toNat_l2Interface]
  | l3Unicast src dst port =>
    rw [id, layout, Layout.number, toNat_cut _ (by decide), GroupId.l3Unicast,
      Word.toNat_field (i := 28) (m := 2) rfl rfl]
  | mplsInterface port =>
    rw [id, layout, Layout.number, toNat_cut _ (by decide), GroupId.mplsInterface, UInt32.and_comm,
      Word.toNat_field (i := 24) (m := 144) rfl rfl, UInt64.toNat_toUInt32]
    omega
  | mplsL3Vpn index =>
    rw [id, layout, Layout.number, toNat_cut _ (by decide), GroupId.mplsL3Vpn, UInt32.and_comm,
      Word.toNat_field (i := 24) (m := 146) rfl rfl]
  | l3Ecmp objective =>
    rw [id, layout, Layout.number, toNat_cut _ (by decide), GroupId.l3Ecmp, Word.toNat_field (i := 28) (m := 7) rfl rfl,
      Word.toNat_shiftLeft_eq (j := 12) rfl]
    omega
  | l2Flood vlan objective =>
    rw [id, layout, Layout.number, toNat_vlan, toNat_cut _ (by decide), GroupId.toNat_l2Flood]
    omega

end Purpose

/-- **Ids are read back.** Whatever a group is made for, the layout of its id is the one of its own type, and each field
has the lower bits of the number that was laid into it: 12 of a VLAN, 16 of the port of an interface group, 28 of the
hash of an L3 unicast group, 24 of the port of an MPLS interface group and of the index of a VPN group, 16 of the id of
an objective. So ids of different types are different, and two ids are equal if and only if their types and fields
are. -/
theorem ids_read_back :
    (∀ u : Purpose, u.id.layout? = some u.layout) ∧ (∀ u v : Purpose, u.tag ≠ v.tag → u.id ≠ v.id) ∧
      ∀ u v : Purpose, u.id = v.id ↔ u.layout = v.layout := by
  have hread : ∀ u : Purpose, u.id.layout? = some u.layout := fun u =>
    GroupId.layout?_of_number u.fits_layout u.toNat_id
  have heq : ∀ u v : Purpose, u.id = v.id ↔ u.layout = v.layout := by
    intro u v
    constructor
    · intro h
      have hlayouts : some u.layout = some v.layout := by rw [← hread, ← hread, h]
      exact Option.some.inj hlayouts
    · intro h
      rw [← GroupId.toNat_inj, u.toNat_id, v.toNat_id, h]
  refine ⟨hread, fun u v htag h => htag ?_, heq⟩
  rw [u.tag_eq, v.tag_eq, (heq u v).1 h]

/-- a VLAN of thirteen bits and a port of seventeen -/
example : (GroupId.l2Interface ⟨0x100a⟩ ⟨0x10007⟩).layout? = some (.l2Interface 10 7) := by decide

end FlowGroups
