/-
Framing. Parts that are hashed together are written one after the other, each behind its length in eight bytes. Whoever
reads a length knows where its part ends, so the stream says which parts it was made of.

- `frame_prefix_iff`: a stream goes on as another one does if and only if the list of parts does.
- `parts_never_alias`: two lists of parts have one stream if and only if they are the same list. In particular no byte
  moves from the end of a part to the front of the next one unnoticed.
- `overlong_part_aliases`: both hold because a part is shorter than 2^64 bytes. The length of a longer one is cut, and
  zeros in it are taken for the lengths of empty parts.
-/
import FlowGroups.Group.Hash
import FlowGroups.Proofs.Words

namespace FlowGroups

namespace Hash

/-! ## One part after the other -/

/-- can the length of every part be written? -/
def Fits (parts : List Octets) : Prop := ∀ p ∈ parts, p.length < 2 ^ 64

instance (parts : List Octets) : Decidable (Fits parts) := inferInstanceAs (Decidable (∀ p ∈ parts, _))

theorem frame_cons (p : Octets) (parts : List Octets) :
    frame (p :: parts) = Word.little64 (.ofNat p.length) ++ (p ++ frame parts) := by
  rw [frame, List.flatMap_cons, List.append_assoc]
  rfl

theorem frame_append (xs ys : List Octets) : frame (xs ++ ys) = frame xs ++ frame ys := List.flatMap_append

/-- the length of the first part says where it ends, whatever follows it -/
theorem first_part_inj {p q rest rest' : Octets} (hp : p.length < 2 ^ 64) (hq : q.length < 2 ^ 64)
    (h : Word.little64 (.ofNat p.length) ++ (p ++ rest) = Word.little64 (.ofNat q.length) ++ (q ++ rest')) :
    p = q ∧ rest = rest' := by
  obtain ⟨hwords, hparts⟩ := List.append_inj h rfl
  have hlength : p.length = q.length := by
    calc p.length = (UInt64.ofNat p.length).toNat := (UInt64.toNat_ofNat_of_lt hp).symm
      _ = (UInt64.ofNat q.length).toNat := by rw [Word.little64_injective hwords]
      _ = q.length := UInt64.toNat_ofNat_of_lt hq
  exact List.append_inj hparts hlength

/-- **A stream goes on as another one if and only if the parts do.** -/
theorem frame_prefix_iff {xs ys : List Octets} (hx : Fits xs) (hy : Fits ys) : frame xs <+: frame ys ↔ xs <+: ys := by
  constructor
  · intro h
    -- one part is taken off both streams at a time
    induction xs generalizing ys with
    | nil => exact List.nil_prefix
    | cons p xs ih =>
      obtain ⟨hp, hx⟩ := List.forall_mem_cons.1 hx
      obtain ⟨rest, hrest⟩ := h
      cases ys with
      | nil =>
        rw [frame_cons, List.append_assoc] at hrest
        cases hrest
      | cons q ys =>
        obtain ⟨hq, hy⟩ := List.forall_mem_cons.1 hy
        rw [frame_cons, frame_cons, List.append_assoc, List.append_assoc] at hrest
        obtain ⟨hfirst, htail⟩ := first_part_inj hp hq hrest
        exact List.cons_prefix_cons.2 ⟨hfirst, ih hx hy ⟨rest, htail⟩⟩
  · rintro ⟨zs, rfl⟩
    exact ⟨frame zs, (frame_append xs zs).symm⟩

/-! ## Streams and lists -/

/-- **Parts never alias.** Let two lists of parts be given, of any lengths and with any bytes in them, and let every
part be shorter than 2^64 bytes. They are fed to the hash as one stream if and only if they are the same list. So bytes
that move from the end of a part to the front of its neighbour always show. -/
theorem parts_never_alias :
    (∀ xs ys : List Octets, Fits xs → Fits ys → (frame xs = frame ys ↔ xs = ys)) ∧
      ∀ (before after : List Octets) (p moved q : Octets),
        Fits (before ++ (p ++ moved) :: q :: after) → Fits (before ++ p :: (moved ++ q) :: after) →
        (frame (before ++ (p ++ moved) :: q :: after) = frame (before ++ p :: (moved ++ q) :: after) ↔ moved = []) := by
  have hinj : ∀ xs ys : List Octets, Fits xs → Fits ys → (frame xs = frame ys ↔ xs = ys) := by
    intro xs ys hx hy
    constructor
    · intro h
      have hforth : xs <+: ys := (frame_prefix_iff hx hy).1 (h ▸ List.prefix_rfl)
      have hback : ys <+: xs := (frame_prefix_iff hy hx).1 (h ▸ List.prefix_rfl)
      exact hforth.eq_of_length_le hback.length_le
    · rintro rfl
      rfl
  refine ⟨hinj, fun before after p moved q hx hy => ?_⟩
  rw [hinj _ _ hx hy, List.append_cancel_left_eq, List.cons.injEq, List.cons.injEq]
  constructor
  · rintro ⟨hp, -⟩
    exact List.append_right_eq_self.1 hp
  · rintro rfl
    exact ⟨List.append_nil p, rfl, rfl⟩

/-- an empty part, a part that holds the stream of others, and bytes on either side of a border -/
theorem nested_parts_apart :
    (Fits [[], [7]] ∧ Fits [frame [[], [7]]] ∧ frame [[], [7]] ≠ frame [frame [[], [7]]]) ∧
      Fits [[1, 2], [3]] ∧ Fits [[1], [2, 3]] ∧ frame [[1, 2], [3]] ≠ frame [[1], [2, 3]] := by
  have hnested : Fits [[], [7]] ∧ Fits [frame [[], [7]]] := by decide
  have hmoved : Fits [[1, 2], [3]] ∧ Fits [[1], [2, 3]] := by decide
  refine ⟨⟨hnested.1, hnested.2, fun h => ?_⟩, hmoved.1, hmoved.2, fun h => ?_⟩
  · have hlists := (parts_never_alias.1 _ _ hnested.1 hnested.2).1 h
    exact absurd (congrArg List.length hlists) (by decide)
  · have hnone : ([2] : Octets) = [] := (parts_never_alias.2 [] [] [1] [2] [3] hmoved.1 hmoved.2).1 h
    exact absurd hnone (by decide)

/-! ## Parts whose length cannot be written -/

theorem frame_replicate_nil (n : Nat) : frame (List.replicate n []) = List.replicate (n * 8) 0 := by
  have hzero : Word.little64 (.ofNat ([] : Octets).length) ++ [] = List.replicate 8 0 := rfl
  rw [frame, List.flatMap_replicate, hzero, List.flatten_replicate_replicate]

/-- **A part that is too long is taken for others.** Its length is cut to zero, and so is that of an empty part. -/
theorem overlong_part_aliases (k : Nat) :
    frame [List.replicate (2 ^ 64 * k) 0] = frame (List.replicate (2 ^ 61 * k + 1) []) := by
  have hcut : UInt64.ofNat (List.replicate (2 ^ 64 * k) (0 : UInt8)).length = 0 := by
    rw [List.length_replicate, ← UInt64.toNat_inj, UInt64.toNat_ofNat']
    exact Nat.mul_mod_right _ _
  have hzero : Word.little64 0 = List.replicate 8 0 := rfl
  calc frame [List.replicate (2 ^ 64 * k) 0]
      = List.replicate 8 0 ++ (List.replicate (2 ^ 64 * k) 0 ++ []) := by rw [frame_cons, hcut, hzero]; rfl
    _ = List.replicate (8 + 2 ^ 64 * k) 0 := by rw [List.append_nil, List.replicate_append_replicate]
    _ = List.replicate ((2 ^ 61 * k + 1) * 8) 0 := by congr 1; omega
    _ = frame (List.replicate (2 ^ 61 * k + 1) []) := (frame_replicate_nil _).symm

/-- without a bound on the parts there are lists that alias -/
theorem not_injective_frame : ¬Function.Injective frame := by
  intro hinj
  have hlists := congrArg List.length (hinj (overlong_part_aliases 1))
  rw [List.length_singleton, List.length_replicate] at hlists
  omega

end Hash

end FlowGroups
