/-
Byte strings: their hexadecimal text, and machine words as runs of bytes in both byte orders.
-/

namespace FlowGroups

abbrev Octets := List UInt8

/-! ## Hexadecimal text -/

namespace Octets

def hexDigit (n : Nat) : Char := if n < 10 then Char.ofNat (48 + n) else Char.ofNat (87 + n)

/-- the value of a hexadecimal digit of either case -/
def hexValue? (c : Char) : Option Nat :=
  if '0' ≤ c ∧ c ≤ '9' then some (c.toNat - 48)
  else if 'a' ≤ c ∧ c ≤ 'f' then some (c.toNat - 87)
  else if 'A' ≤ c ∧ c ≤ 'F' then some (c.toNat - 55)
  else none

/-- two lower-case digits for a byte -/
def hexByte (b : UInt8) : List Char := [hexDigit (b.toNat / 16), hexDigit (b.toNat % 16)]

def hex (bs : Octets) : String := String.ofList (bs.flatMap hexByte)

/-- reads pairs of digits; an odd digit out, or any other character, is refused -/
def ofHexChars? : List Char → Option Octets
  | [] => some []
  | [_] => none
  | h :: l :: rest => do
    let h ← hexValue? h
    let l ← hexValue? l
    let bs ← ofHexChars? rest
    pure (UInt8.ofNat (16 * h + l) :: bs)

def ofHex? (s : String) : Option Octets := ofHexChars? s.toList

end Octets

/-! ## Words as bytes -/

namespace Word

def big16 (x : UInt16) : Octets := [(x >>> 8).toUInt8, x.toUInt8]

def big32 (x : UInt32) : Octets :=
  [(x >>> 24).toUInt8, (x >>> 16).toUInt8, (x >>> 8).toUInt8, x.toUInt8]

def big64 (x : UInt64) : Octets := big32 (x >>> 32).toUInt32 ++ big32 x.toUInt32

def little32 (x : UInt32) : Octets :=
  [x.toUInt8, (x >>> 8).toUInt8, (x >>> 16).toUInt8, (x >>> 24).toUInt8]

def little64 (x : UInt64) : Octets := little32 x.toUInt32 ++ little32 (x >>> 32).toUInt32

/-- the word whose little-endian bytes these are; missing high bytes count as zero -/
def ofLittle : Octets → UInt64
  | [] => 0
  | b :: rest => b.toUInt64 ||| (ofLittle rest <<< 8)

/-- a byte string that is not four bytes long does not hold a 32-bit word -/
structure WrongLength where
  length : Nat
deriving DecidableEq, Repr

def WrongLength.message (e : WrongLength) : String :=
  s!"invalid byte array given to decode as u32, invalid len {e.length} needed 4"

def ofBig32 : Octets → Except WrongLength UInt32
  | [a, b, c, d] =>
    .ok (a.toUInt32 <<< 24 ||| b.toUInt32 <<< 16 ||| c.toUInt32 <<< 8 ||| d.toUInt32)
  | bs => .error ⟨bs.length⟩

end Word

end FlowGroups
