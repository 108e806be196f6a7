/-
The hash that group keys are made with: four 64-bit lanes in rotation, each word of the input
mixed into the lane that is next. The parts hashed together are framed by their lengths first, so
that bytes never move from one part to its neighbour unnoticed.
-/
import FlowGroups.Octets

namespace FlowGroups.Hash

/-- spreads every bit of a word over the whole word -/
def diffuse (x : UInt64) : UInt64 :=
  let x := x * 0x6eed0e9da4d94a4f
  let x := x ^^^ ((x >>> 32) >>> (x >>> 60))
  x * 0x6eed0e9da4d94a4f

structure Lanes where
  a : UInt64
  b : UInt64
  c : UInt64
  d : UInt64
deriving DecidableEq, Repr

def Lanes.start : Lanes :=
  ⟨0x16f11fe89b0d677c, 0xb480a793d8e6c86c, 0x6fe2e5aaf078ebc9, 0x14f994a4c5259381⟩

/-- mixes a word into the first lane and moves that lane to the end -/
def Lanes.absorb (s : Lanes) (w : UInt64) : Lanes := ⟨s.b, s.c, s.d, diffuse (s.a ^^^ w)⟩

/-- mixes in all whole words, and then the bytes left over without moving a lane -/
def Lanes.absorbAll (s : Lanes) : Octets → Lanes
  | b0 :: b1 :: b2 :: b3 :: b4 :: b5 :: b6 :: b7 :: rest =>
    (s.absorb (Word.ofLittle [b0, b1, b2, b3, b4, b5, b6, b7])).absorbAll rest
  | [] => s
  | tail => { s with a := diffuse (s.a ^^^ Word.ofLittle tail) }

def digest (bs : Octets) : UInt64 :=
  let s := Lanes.start.absorbAll bs
  diffuse (s.a ^^^ s.b ^^^ s.c ^^^ s.d ^^^ UInt64.ofNat bs.length)

/-- the parts one after the other, each behind its length -/
def frame (parts : List Octets) : Octets :=
  parts.flatMap fun p => Word.little64 (UInt64.ofNat p.length) ++ p

/-- the hash of some parts, its two halves folded into one word -/
def ofParts (parts : List Octets) : UInt32 :=
  let h := digest (frame parts)
  (h ^^^ (h >>> 32)).toUInt32

end FlowGroups.Hash
