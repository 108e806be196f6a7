/-
Words. Ids, keys and lengths are laid out bit by bit in machine words; what shifts, masks and bytes make of a word is
said here of the number that it stands for.

- `toNat_field`, `field_inj`, `field_eq`: a field below a tag holds the lower bits of what is laid into it, whatever is
  above them is lost, and what it holds is read from it.
- `big32_injective`, `little64_injective`: a word is determined by its bytes, in either order.
- `big32_lt`: with the highest byte first, the bytes of words have the order of the words.
-/
import Mathlib.Data.Nat.Bitwise
import FlowGroups.Octets

namespace FlowGroups.Word

/-! ## Shifts and masks -/

section Fields

variable {x y n k tag mask : UInt32} {i j m : Nat}

theorem toNat_shiftLeft_eq (hk : k.toNat % 32 = j) : (x <<< k).toNat = x.toNat * 2 ^ j % 2 ^ 32 := by
  rw [UInt32.toNat_shiftLeft, hk, Nat.shiftLeft_eq]

theorem toNat_shiftRight_eq (hk : k.toNat % 32 = j) : (x >>> k).toNat = x.toNat / 2 ^ j := by
  rw [UInt32.toNat_shiftRight, hk, Nat.shiftRight_eq_div_pow]

theorem toNat_and_mask (hm : mask.toNat = 2 ^ i - 1) : (x &&& mask).toNat = x.toNat % 2 ^ i := by
  rw [UInt32.toNat_and, hm, Nat.and_two_pow_sub_one_eq_mod]

theorem shiftRight_eq (hk : k.toNat % 32 = j) (h : x.toNat / 2 ^ j = n.toNat) : x >>> k = n := by
  rw [← UInt32.toNat_inj, toNat_shiftRight_eq hk, h]

theorem and_mask_eq (hm : mask.toNat = 2 ^ i - 1) (h : x.toNat % 2 ^ i = n.toNat) : x &&& mask = n := by
  rw [← UInt32.toNat_inj, toNat_and_mask hm, h]

/-- a field of `i` bits above the lowest `j` -/
theorem field_eq (hk : k.toNat % 32 = j) (hm : mask.toNat = 2 ^ i - 1) (h : x.toNat / 2 ^ j % 2 ^ i = n.toNat) :
    (x >>> k) &&& mask = n := by
  refine and_mask_eq hm ?_
  rw [toNat_shiftRight_eq hk, h]

/-- a tag, and in the field below it a number cut to the width of the field -/
theorem toNat_field (ht : tag.toNat = 2 ^ i * m) (hm : mask.toNat = 2 ^ i - 1) (y : UInt32) :
    (tag ||| (mask &&& y)).toNat = 2 ^ i * m + y.toNat % 2 ^ i := by
  rw [UInt32.toNat_or, UInt32.and_comm, toNat_and_mask hm, ht,
    Nat.two_pow_add_eq_or_of_lt (Nat.mod_lt _ (Nat.two_pow_pos i))]

theorem field_inj (ht : tag.toNat = 2 ^ i * m) (hm : mask.toNat = 2 ^ i - 1) :
    (tag ||| (mask &&& x)) = (tag ||| (mask &&& y)) ↔ x.toNat % 2 ^ i = y.toNat % 2 ^ i := by
  rw [← UInt32.toNat_inj, toNat_field ht hm, toNat_field ht hm, Nat.add_left_cancel_iff]

end Fields

/-! ## Bytes -/

/-- a word from its four bytes -/
theorem toNat_eq_bytes (x : UInt32) :
    x.toNat = (((x >>> 24).toUInt8.toNat * 256 + (x >>> 16).toUInt8.toNat) * 256 + (x >>> 8).toUInt8.toNat) * 256 +
      x.toUInt8.toNat := by
  have hx := x.toNat_lt
  rw [UInt32.toNat_toUInt8, UInt32.toNat_toUInt8, UInt32.toNat_toUInt8, UInt32.toNat_toUInt8,
    toNat_shiftRight_eq (j := 24) rfl, toNat_shiftRight_eq (j := 16) rfl, toNat_shiftRight_eq (j := 8) rfl]
  omega

theorem big32_injective {x y : UInt32} (h : big32 x = big32 y) : x = y := by
  simp only [big32, List.cons.injEq, and_true] at h
  obtain ⟨h3, h2, h1, h0⟩ := h
  apply UInt32.toNat_inj.1
  rw [toNat_eq_bytes x, toNat_eq_bytes y, h3, h2, h1, h0]

/-- the bytes of a smaller word come first -/
theorem big32_lt {x y : UInt32} (h : x < y) : big32 x < big32 y := by
  rw [UInt32.lt_iff_toNat_lt, toNat_eq_bytes x, toNat_eq_bytes y] at h
  have hx1 := (x >>> 16).toUInt8.toNat_lt
  have hx2 := (x >>> 8).toUInt8.toNat_lt
  have hx3 := x.toUInt8.toNat_lt
  have hy1 := (y >>> 16).toUInt8.toNat_lt
  have hy2 := (y >>> 8).toUInt8.toNat_lt
  have hy3 := y.toUInt8.toNat_lt
  simp only [big32, List.cons_lt_cons_iff, UInt8.lt_iff_toNat_lt, ← UInt8.toNat_inj]
  omega

theorem little32_injective {x y : UInt32} (h : little32 x = little32 y) : x = y := by
  have hreverse : ∀ z, little32 z = (big32 z).reverse := fun _ => rfl
  rw [hreverse, hreverse] at h
  exact big32_injective (List.reverse_inj.1 h)

/-- a word from its two halves -/
theorem toNat_eq_halves (x : UInt64) : x.toNat = x.toUInt32.toNat + 2 ^ 32 * (x >>> 32).toUInt32.toNat := by
  have hx := x.toNat_lt
  have hhigh : (x >>> 32).toNat = x.toNat / 2 ^ 32 := by
    rw [UInt64.toNat_shiftRight, Nat.shiftRight_eq_div_pow]
    rfl
  rw [UInt64.toNat_toUInt32, UInt64.toNat_toUInt32, hhigh]
  omega

theorem little64_injective {x y : UInt64} (h : little64 x = little64 y) : x = y := by
  obtain ⟨hlow, hhigh⟩ := List.append_inj h rfl
  rw [← UInt64.toNat_inj, toNat_eq_halves x, toNat_eq_halves y, little32_injective hlow, little32_injective hhigh]

end FlowGroups.Word
