/-
Plans: the groups that implement an objective, and which of them have to exist before which.

Groups are planned inside out. A group that needs no other is *initial*; every other group is an
*element*, which waits for the groups it points to. The plan also holds the record to keep once the
top-level group is confirmed.
-/
import FlowGroups.Record

namespace FlowGroups

/-- a group to create, or buckets to add to one, as soon as the groups it waits on exist -/
structure Element where
  descriptor : Descriptor
  waitOn : List Key
  /-- the buckets go to the group that already stands under the key -/
  addBucket : Bool
deriving DecidableEq, Repr

/-- an element that waits on the given keys, each counted once -/
def Element.after (d : Descriptor) (prerequisites : List Key) (addBucket : Bool) : Element :=
  ⟨d, prerequisites.eraseDups, addBucket⟩

structure Plan where
  objective : UInt32
  /-- groups without prerequisites, one for each key -/
  initial : List Descriptor
  /-- all other groups, inner before outer -/
  elements : List Element
  record : Record
  topKey : Key
  topId : GroupId
deriving DecidableEq, Repr

namespace Plan

/-- every group of the plan, innermost first -/
def descriptors (p : Plan) : List Descriptor := p.initial ++ p.elements.map (·.descriptor)

/-- the pairs of a group and a group that waits for it -/
def edges (p : Plan) : List (Key × Key) :=
  p.elements.flatMap fun e => e.waitOn.map fun k => (k, e.descriptor.key)

end Plan

end FlowGroups
