/-
The expiry queue: keys with the time they expire at, earliest first. An entry carries the generation
it was scheduled in, so that its owner can tell an outdated entry from a live one.
-/
import FlowGroups.Group

namespace FlowGroups

structure Expiry (κ : Type) where
  deadline : Nat
  generation : Nat
  key : κ
deriving DecidableEq, Repr

/-- by deadline, then by generation, then by key -/
def Expiry.before {κ : Type} [LT κ] [DecidableLT κ] (e f : Expiry κ) : Bool :=
  e.deadline < f.deadline ||
    (e.deadline == f.deadline &&
      (e.generation < f.generation || (e.generation == f.generation && decide (e.key < f.key))))

/-- the entries in ascending order -/
structure ExpiryQueue (κ : Type) where
  entries : List (Expiry κ)
deriving DecidableEq, Repr

namespace ExpiryQueue

variable {κ : Type} [LT κ] [DecidableLT κ]

def empty : ExpiryQueue κ := ⟨[]⟩

/-- puts an entry in front of the first one that it is not after -/
def place (e : Expiry κ) : List (Expiry κ) → List (Expiry κ)
  | [] => [e]
  | f :: fs => if f.before e then f :: place e fs else e :: f :: fs

def schedule (q : ExpiryQueue κ) (deadline generation : Nat) (key : κ) : ExpiryQueue κ :=
  ⟨place ⟨deadline, generation, key⟩ q.entries⟩

def nextDeadline? (q : ExpiryQueue κ) : Option Nat := q.entries.head?.map (·.deadline)

/-- takes entries from the front as long as their time has come -/
def popEntries (now : Nat) : List (Expiry κ) → List (Expiry κ) × List (Expiry κ)
  | [] => ([], [])
  | e :: es =>
    if e.deadline ≤ now then
      let (expired, kept) := popEntries now es
      (e :: expired, kept)
    else ([], e :: es)

/-- the entries whose time has come, earliest first, and the queue without them -/
def popExpired (q : ExpiryQueue κ) (now : Nat) : List (Expiry κ) × ExpiryQueue κ :=
  let (expired, kept) := popEntries now q.entries
  (expired, ⟨kept⟩)

def size (q : ExpiryQueue κ) : Nat := q.entries.length

def isEmpty (q : ExpiryQueue κ) : Bool := q.entries.isEmpty

end ExpiryQueue

end FlowGroups
