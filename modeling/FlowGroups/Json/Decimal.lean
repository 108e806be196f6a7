/-
Doubles in decimal: the fewest digits that only this double is nearest to, and among those the
closest. All arithmetic is on natural numbers, so nothing is rounded on the way.
-/
import FlowGroups.Json.Value

namespace FlowGroups.Json

/-- digits with the weight of the first: the value is d.ddd · 10^exponent -/
structure Decimal where
  digits : List Nat
  exponent : Int
deriving DecidableEq, Repr

namespace Decimal

/-! ## The reals that round to a double -/

/-- a double of finite magnitude above zero: significand · 2^power -/
structure Binary where
  significand : Nat
  power : Int
  /-- the next smaller double is only half as far away as the next greater one -/
  isNarrowBelow : Bool
deriving DecidableEq, Repr

def Binary.ofBits (bits : UInt64) : Binary :=
  let fraction := (bits &&& 0xfffffffffffff).toNat
  let biased := ((bits >>> 52) &&& 0x7ff).toNat
  if biased = 0 then ⟨fraction, -1074, false⟩
  else ⟨fraction + 0x10000000000000, (biased : Int) - 1075, fraction = 0 ∧ 1 < biased⟩

/-- a value and the ends of the reals around it, over one denominator -/
structure Interval where
  low : Nat
  value : Nat
  high : Nat
  denominator : Nat
  /-- do the ends belong to it? -/
  isClosed : Bool
deriving DecidableEq, Repr

/-- the reals nearer to a double than to its neighbours; a tie goes to the even significand -/
def Binary.interval (b : Binary) : Interval :=
  let unit := Nat.pow 2 b.power.toNat
  { low := (4 * b.significand - if b.isNarrowBelow then 1 else 2) * unit
    value := 4 * b.significand * unit
    high := (4 * b.significand + 2) * unit
    denominator := 4 * Nat.pow 2 (-b.power).toNat
    isClosed := b.significand % 2 = 0 }

def Interval.scale (i : Interval) (k : Nat) : Interval :=
  { i with low := i.low * k, value := i.value * k, high := i.high * k }

/-- does n / denominator lie in the interval? -/
def Interval.holds (i : Interval) (n : Nat) : Bool :=
  if i.isClosed then i.low ≤ n && n ≤ i.high else i.low < n && n < i.high

/-! ## Search -/

/-- how many decimal digits a number has; zero has one -/
def width (n : Nat) : Nat := (Nat.toDigits 10 n).length

/-- the weight of the first digit of value / denominator -/
def Interval.exponent (i : Interval) : Int :=
  (width (i.value * Nat.pow 10 400 / i.denominator) : Int) - 401

/-- the multiple of 10^weight in the interval that is nearest to its value -/
def Interval.nearest? (i : Interval) (weight : Int) : Option Nat :=
  let step := i.denominator * Nat.pow 10 weight.toNat
  let i := i.scale (Nat.pow 10 (-weight).toNat)
  let below := i.value / step
  let above := below + 1
  match i.holds (below * step), i.holds (above * step) with
  | true, true =>
    let down := i.value - below * step
    let up := above * step - i.value
    some (if down < up ∨ (down = up ∧ below % 2 = 0) then below else above)
  | true, false => some below
  | false, true => some above
  | false, false => none

/-- tries grids of `places` digits and more -/
def Interval.shortest (i : Interval) (first : Int) : Nat → Nat → Nat × Int
  | _, 0 => (0, 0)
  | places, tries + 1 =>
    let weight := first - places + 1
    match i.nearest? weight with
    | some n => (n, weight)
    | none => i.shortest first (places + 1) tries

def trimZeros (ds : List Nat) : List Nat := (ds.reverse.dropWhile (· == 0)).reverse

/-- the shortest decimal of the magnitude of a double that is finite and not zero -/
def ofBits (bits : UInt64) : Decimal :=
  let i := (Binary.ofBits bits).interval
  let (n, weight) := i.shortest i.exponent 1 17
  let ds := (Nat.toDigits 10 n).map fun c => c.toNat - 48
  ⟨trimZeros ds, weight + ds.length - 1⟩

/-! ## Text -/

def digitText (ds : List Nat) : String := String.ofList (ds.map fun d => Char.ofNat (48 + d))

/-- without an exponent from 10^-5 up to below 10^16, and always with a point -/
def isPlain (d : Decimal) : Bool := -5 ≤ d.exponent && d.exponent ≤ 15

def plainText (d : Decimal) : String :=
  match d.exponent with
  | .ofNat n =>
    let whole := d.digits.take (n + 1)
    let fraction := d.digits.drop (n + 1)
    digitText (whole ++ List.replicate (n + 1 - whole.length) 0) ++ "." ++
      digitText (if fraction = [] then [0] else fraction)
  | .negSucc n => "0." ++ digitText (List.replicate n 0 ++ d.digits)

/-- the exponent has a sign and at least two digits -/
def scientificText (d : Decimal) : String :=
  let fraction := d.digits.drop 1
  let point := if fraction = [] then "" else "." ++ digitText fraction
  let sign := if d.exponent < 0 then "-" else "+"
  let n := d.exponent.natAbs
  digitText (d.digits.take 1) ++ point ++ "e" ++ sign ++ (if n < 10 then "0" else "") ++ toString n

def text (d : Decimal) : String := if d.isPlain then d.plainText else d.scientificText

end Decimal

/-- integers in decimal, doubles with the fewest digits that tell them apart -/
def Number.text : Number → String
  | .integer n => toString n
  | .double bits =>
    let sign := if bits >>> 63 = 0 then "" else "-"
    let magnitude := bits &&& 0x7fffffffffffffff
    sign ++ (if magnitude = 0 then "0.0" else (Decimal.ofBits magnitude).text)

end FlowGroups.Json
