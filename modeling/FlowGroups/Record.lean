/-
The record kept of an installed objective: for each of its buckets the keys of the groups that
implement it, outermost first.
-/
import FlowGroups.Group

namespace FlowGroups

structure Record where
  objective : UInt32
  chains : List (List Key)
deriving DecidableEq, Repr

namespace Record

/-- the key of the group that stands for the whole objective -/
def topKey? (r : Record) : Option Key := r.chains.head?.bind List.head?

/-- the record with the chains of another behind its own -/
def append (r s : Record) : Record := { r with chains := r.chains ++ s.chains }

/-- the keys of all chains, each where it is first met -/
def distinctKeys (r : Record) : List Key := r.chains.flatten.eraseDups

end Record

end FlowGroups
