import ArenaHeap.NodeList.Fault
import ArenaHeap.NodeList.Node

/-!
# Node lists

A list is the address of its first node; the rest of it is in the memory of its host.

* `NodeList.nodes` : the nodes from the first to the last;
* `insertFront`, `insertAfter`, `insertBefore`, `delete`, `clear` : the edits;
* `search`, `count`, `isEmpty`, `values`, `range` : the questions;
* `slice` : the values between two references, both included.
-/

namespace ArenaHeap

/-- The address of the first node of a list. -/
structure NodeList where
  head : Option UInt64 := none
deriving DecidableEq, Repr

namespace NodeList

variable {g : Geometry}

/-! ## Traversal -/

/-- At most `fuel` nodes, each linked from the one before, from `cursor` on. -/
def nodesFrom (a : Allocator g) : Nat → Option UInt64 → List Placed
  | 0, _ => []
  | _ + 1, none => []
  | fuel + 1, some address => ⟨address, a.node address⟩ :: nodesFrom a fuel (a.node address).next

/-- No list has more nodes than its arena has blocks. -/
def nodeBound (a : Allocator g) : Nat := (a.space.map BlockSpace.blockBound).getD 0

/-- The nodes of a list, in order. -/
def nodes (l : NodeList) (a : Allocator g) : List Placed := nodesFrom a (nodeBound a) l.head

/-- The list and its host with `next` behind the node `previous`, or at the head. -/
def link (l : NodeList) (h : Host g) (previous next : Option UInt64) : NodeList × Host g :=
  match previous with
  | none => (⟨next⟩, h)
  | some address => (l, h.setLink address next)

/-! ## Edits -/

/-- Puts `value` in front of the list. -/
def insertFront (l : NodeList) (h : Host g) (value : Int32) :
    Except ListFault Reference × NodeList × Host g :=
  match h.place value with
  | (.error fault, h) => (.error (.allocationExhausted fault), l, h)
  | (.ok ref, h) => (.ok ref, ⟨ref.address⟩, h.setLink ref.address l.head)

/-- Puts `value` right behind the node `previous`. -/
def insertAfter (l : NodeList) (h : Host g) (previous : Option Reference) (value : Int32) :
    Except ListFault Reference × NodeList × Host g :=
  match previous with
  | none => (.error (.invalidArgument "previous node is none"), l, h)
  | some previous =>
    match h.place value with
    | (.error fault, h) => (.error (.allocationExhausted fault), l, h)
    | (.ok ref, h) =>
      match (l.nodes h.allocator).find? (·.ref.same previous) with
      | none => (.error .notFound, l, h.dispose ref.address)
      | some target =>
        let h := h.setLink ref.address target.node.next
        (.ok ref, l, h.setLink target.address ref.address)

/-- Puts `value` right in front of the node `next`. -/
def insertBefore (l : NodeList) (h : Host g) (next : Option Reference) (value : Int32) :
    Except ListFault Reference × NodeList × Host g :=
  match next with
  | none => (.error (.invalidArgument "next node is none"), l, h)
  | some next =>
    match h.place value with
    | (.error fault, h) => (.error (.allocationExhausted fault), l, h)
    | (.ok ref, h) =>
      match (l.nodes h.allocator).span (!·.ref.same next) with
      | (_, []) => (.error .notFound, l, h.dispose ref.address)
      | (before, target :: _) =>
        let h := h.setLink ref.address target.address
        (.ok ref, l.link h (before.getLast?.map Placed.address) ref.address)

/-- Removes the first node that holds `value`. -/
def delete (l : NodeList) (h : Host g) (value : Int32) :
    Except ListFault Unit × NodeList × Host g :=
  match (l.nodes h.allocator).span (·.node.value != value) with
  | (_, []) => (.error .notFound, l, h)
  | (before, target :: _) =>
    let (l, h) := l.link h (before.getLast?.map Placed.address) target.node.next
    (.ok (), l, h.dispose target.address)

/-- Takes apart at most `fuel` nodes from `cursor` on, each before its block is given back. -/
def clearFrom : Nat → Option UInt64 → Host g → Host g
  | 0, _, h => h
  | _ + 1, none, h => h
  | fuel + 1, some address, h =>
    clearFrom fuel (h.allocator.node address).next ((h.setLink address none).dispose address)

/-- Removes every node. -/
def clear (l : NodeList) (h : Host g) : NodeList × Host g :=
  (⟨none⟩, clearFrom (nodeBound h.allocator) l.head h)

/-! ## Questions -/

/-- The reference to the first node that holds `value`. -/
def search (l : NodeList) (a : Allocator g) (value : Int32) : Option Reference :=
  ((l.nodes a).find? (·.node.value == value)).map Placed.ref

/-- The number of nodes. -/
def count (l : NodeList) (a : Allocator g) : Nat := (l.nodes a).length

/-- Whether there is no node. -/
def isEmpty (l : NodeList) : Bool := l.head.isNone

/-- The values between two references, both included: all from the first value if there is no
`start`, up to the last if `stop` is not met after it. -/
def slice (start stop : Option Reference) (started : Bool) : List Placed → List Int32
  | [] => []
  | p :: rest =>
    if started || start.any p.ref.same then
      p.node.value :: if stop.any p.ref.same then [] else slice start stop true rest
    else slice start stop false rest

/-- The values from node `start` to node `stop`. -/
def range (l : NodeList) (a : Allocator g) (start stop : Option Reference) : List Int32 :=
  slice start stop start.isNone (l.nodes a)

/-- All values in order. -/
def values (l : NodeList) (a : Allocator g) : List Int32 := l.range a none none

end NodeList

end ArenaHeap
