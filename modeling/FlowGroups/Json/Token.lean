/-
The tokens of JSON text. Strings are taken apart into plain bytes and escaped code units here and
put together only when somebody asks for their text, since a string nobody looks at may hold bytes
or surrogates that make no text.
-/
import FlowGroups.Json.Numeral

namespace FlowGroups.Json

/-- a piece of a string: a byte as it stands, or a 16-bit code unit from an escape -/
inductive Piece
  | byte (b : UInt8)
  | unit (u : Nat)
deriving DecidableEq, Repr

inductive Token
  | openArray
  | closeArray
  | openObject
  | closeObject
  | comma
  | colon
  | null
  | bool (b : Bool)
  | number (n : Numeral)
  | string (pieces : List Piece)
deriving DecidableEq, Repr

/-! ## The text of a string -/

namespace Piece

/-- the bytes of a string; a surrogate has to be one half of a pair of escapes -/
def octets? : List Piece → Option Octets
  | [] => some []
  | .byte b :: rest => (octets? rest).map (b :: ·)
  | .unit hi :: rest =>
    if 0xdc00 ≤ hi ∧ hi < 0xe000 then none
    else if 0xd800 ≤ hi ∧ hi < 0xdc00 then
      match rest with
      | .unit lo :: rest =>
        if 0xdc00 ≤ lo ∧ lo < 0xe000 then
          let c := Char.ofNat (0x10000 + (hi - 0xd800) * 0x400 + (lo - 0xdc00))
          (octets? rest).map (c.toString.toUTF8.toList ++ ·)
        else none
      | _ => none
    else (octets? rest).map ((Char.ofNat hi).toString.toUTF8.toList ++ ·)

def text? (pieces : List Piece) : Option String :=
  (octets? pieces).bind fun bs => String.fromUTF8? ⟨bs.toArray⟩

end Piece

/-! ## Scanning -/

/-- where in the text a scan is; what is collected so far is in reverse -/
inductive Scan
  | between
  | word (seen : Octets)
  | string (seen : List Piece)
  /-- behind a backslash -/
  | escape (seen : List Piece)
  /-- inside the four digits of an escape, `missing` of them to come -/
  | code (seen : List Piece) (value missing : Nat)
deriving DecidableEq, Repr

namespace Scan

def isBlank (b : UInt8) : Bool := b == 0x20 || b == 0x09 || b == 0x0a || b == 0x0d

/-- bytes that literals and numbers are made of -/
def isWord (b : UInt8) : Bool :=
  Numeral.isDigit b || (0x61 ≤ b && b ≤ 0x7a) || (0x41 ≤ b && b ≤ 0x5a) ||
    b == 0x2b || b == 0x2d || b == 0x2e

def mark? (b : UInt8) : Option Token :=
  if b = 0x5b then some .openArray
  else if b = 0x5d then some .closeArray
  else if b = 0x7b then some .openObject
  else if b = 0x7d then some .closeObject
  else if b = 0x2c then some .comma
  else if b = 0x3a then some .colon
  else none

/-- the code unit of an escape of one letter -/
def escaped? (b : UInt8) : Option UInt8 :=
  if b = 0x22 ∨ b = 0x5c ∨ b = 0x2f then some b
  else if b = 0x62 then some 0x08
  else if b = 0x66 then some 0x0c
  else if b = 0x6e then some 0x0a
  else if b = 0x72 then some 0x0d
  else if b = 0x74 then some 0x09
  else none

/-- the token a finished word is -/
def ofWord? (w : Octets) : Option Token :=
  if w = [0x6e, 0x75, 0x6c, 0x6c] then some .null
  else if w = [0x74, 0x72, 0x75, 0x65] then some (.bool true)
  else if w = [0x66, 0x61, 0x6c, 0x73, 0x65] then some (.bool false)
  else (Numeral.read? w).map .number

/-- a byte met between tokens -/
def start (out : List Token) (b : UInt8) : Option (Scan × List Token) :=
  if isBlank b then some (.between, out)
  else if b = 0x22 then some (.string [], out)
  else if isWord b then some (.word [b], out)
  else (mark? b).map fun t => (.between, t :: out)

/-- the scan after one more byte, and the tokens finished so far, last first -/
def step (out : List Token) (b : UInt8) : Scan → Option (Scan × List Token)
  | .between => start out b
  | .word seen =>
    if isWord b then some (.word (b :: seen), out)
    else (ofWord? seen.reverse).bind fun t => start (t :: out) b
  | .string seen =>
    if b = 0x22 then some (.between, .string seen.reverse :: out)
    else if b = 0x5c then some (.escape seen, out)
    else if b < 0x20 then none
    else some (.string (.byte b :: seen), out)
  | .escape seen =>
    if b = 0x75 then some (.code seen 0 4, out)
    else (escaped? b).map fun e => (.string (.byte e :: seen), out)
  | .code seen value missing =>
    (Octets.hexValue? (Char.ofNat b.toNat)).map fun d =>
      let value := 16 * value + d
      if missing ≤ 1 then (.string (.unit value :: seen), out)
      else (.code seen value (missing - 1), out)

def all? (bs : Octets) : Option (List Token) := do
  let (scan, out) ← bs.foldlM (fun s b => step s.2 b s.1) (Scan.between, [])
  match scan with
  | .between => pure out.reverse
  | .word seen => do
    let t ← ofWord? seen.reverse
    pure (t :: out).reverse
  | _ => none

end Scan

end FlowGroups.Json
