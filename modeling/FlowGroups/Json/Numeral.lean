/-
Numerals: the grammar of JSON numbers and the number a numeral stands for.

A double is made from at most 64 bits of digits, scaled by one power of ten after the other; digits
that no longer fit are only counted. The result can differ from the nearest double in its last bit.
-/
import FlowGroups.Octets
import FlowGroups.Json.Value

namespace FlowGroups.Json

/-- a number as written: digits are values from 0 to 9 -/
structure Numeral where
  isNegative : Bool
  whole : List Nat
  /-- the digits after the point; empty if there is no point -/
  fraction : List Nat
  /-- the sign of the exponent, true for minus, and its digits -/
  exponent : Option (Bool × List Nat)
deriving DecidableEq, Repr

namespace Numeral

/-! ## Grammar -/

def isDigit (b : UInt8) : Bool := 0x30 ≤ b && b ≤ 0x39

def digits (bs : Octets) : List Nat := bs.map fun b => b.toNat - 0x30

/-- splits off the digits at the front -/
def spanDigits (bs : Octets) : List Nat × Octets :=
  (digits (bs.takeWhile isDigit), bs.dropWhile isDigit)

/-- a sign and at least one digit -/
def readExponent? (bs : Octets) : Option (Bool × List Nat) :=
  let (minus, bs) := match bs with
    | 0x2b :: rest => (false, rest)
    | 0x2d :: rest => (true, rest)
    | _ => (false, bs)
  match spanDigits bs with
  | (d :: ds, []) => some (minus, d :: ds)
  | _ => none

/-- what may follow the digits of the whole part or of the fraction -/
def readTail? (n : Numeral) : Octets → Option Numeral
  | [] => some n
  | b :: rest =>
    if b = 0x65 ∨ b = 0x45 then (readExponent? rest).map fun e => { n with exponent := some e }
    else none

/-- reads a numeral: no leading zeros, and digits on both sides of a point -/
def read? (bs : Octets) : Option Numeral :=
  let (minus, bs) := match bs with
    | 0x2d :: rest => (true, rest)
    | _ => (false, bs)
  match spanDigits bs with
  | ([], _) => none
  | (0 :: _ :: _, _) => none
  | (whole, 0x2e :: rest) =>
    match spanDigits rest with
    | ([], _) => none
    | (fraction, rest) => readTail? ⟨minus, whole, fraction, none⟩ rest
  | (whole, rest) => readTail? ⟨minus, whole, [], none⟩ rest

/-! ## Value -/

/-- digits as long as the number they make stays below 2^64, and how many are left -/
def gather (start : Nat) : List Nat → Nat × Nat
  | [] => (start, 0)
  | d :: ds =>
    if start * 10 + d < UInt64.size then gather (start * 10 + d) ds else (start, ds.length + 1)

def powerOfTen (n : Nat) : Float := Float.ofScientific 1 false n

/-- divides by a power of ten, 308 places at a time -/
def shrink (f : Float) (places : Nat) : Float :=
  if places ≤ 308 then f / powerOfTen places
  else if f == 0 then f
  else shrink (f / powerOfTen 308) (places - 308)
termination_by places

/-- significand · 10^exponent, unless that is too large -/
def scale? (significand : Nat) (exponent : Int) : Option Float :=
  let f := (UInt64.ofNat significand).toFloat
  match exponent with
  | .ofNat n =>
    if n ≤ 308 then
      let g := f * powerOfTen n
      if g.isInf then none else some g
    else if f == 0 then some f
    else none
  | .negSucc n => some (shrink f (n + 1))

/-- the exponent that is written, unless it does not fit 31 bits -/
def smallExponent? (ds : List Nat) : Option Nat :=
  ds.foldlM (fun n d => if n * 10 + d < 0x80000000 then some (n * 10 + d) else none) 0

/-- the magnitude of a numeral that is no integer of 64 bits -/
def magnitude? (n : Numeral) : Option Float :=
  let (significand, dropped) := gather 0 n.whole
  let (significand, left) := gather significand n.fraction
  let shift : Int := dropped - (n.fraction.length - left : Nat)
  match n.exponent with
  | none => scale? significand shift
  | some (minus, ds) =>
    match smallExponent? ds with
    | some e => scale? significand (if minus then shift - e else shift + e)
    | none => if significand = 0 ∨ minus then some 0 else none

/-- the number a numeral stands for; one that is beyond the doubles has none -/
def number? (n : Numeral) : Option Number :=
  let double := n.magnitude?.map fun f => Number.double (if n.isNegative then -f else f).toBits
  if n.fraction = [] ∧ n.exponent = none then
    match gather 0 n.whole with
    | (m, 0) =>
      if n.isNegative then
        if 0 < m ∧ m ≤ 0x8000000000000000 then some (.integer (-m)) else double
      else some (.integer m)
    | _ => double
  else double

end Numeral

end FlowGroups.Json
