import ArenaHeap.Allocator

/-!
# Nodes

A node lives in the usable bytes of a block of its own. It is known by its address and its stamp:
the address is used again after the node is gone, the stamp never.

* `Node` : what a node holds, and its forty bytes (`Node.toBytes`, `Node.ofBytes`);
* `Reference` : a node as its users name it; `Reference.same` compares names;
* `Host` : an allocator for nodes, and the stamp of the next one;
* `Host.place`, `Host.dispose`, `Host.setLink` : the three ways to write a node.
-/

namespace ArenaHeap

/-! ## Nodes in memory -/

/-- What a node holds. -/
structure Node where
  /-- The address of the next node of the list. -/
  next : Option UInt64
  /-- The usable bytes of the block that the node lives in. -/
  size : UInt64
  stamp : UInt64
  value : Int32
deriving DecidableEq, Repr

namespace Node

/-- The bytes that a node asks for. -/
def byteSize : UInt64 := 40

/-- A link as a word; no node has address 0. -/
def linkWord (next : Option UInt64) : UInt64 := next.getD 0

/-- The link that a word stands for. -/
def ofLinkWord (word : UInt64) : Option UInt64 := if word = 0 then none else some word

/-- The bytes of a link. -/
def linkBytes (next : Option UInt64) : List UInt8 := Word.toBytes 8 (linkWord next)

/-- The bytes of a node: the link and a word that is kept clear, the size, the stamp, the value. -/
def toBytes (n : Node) : List UInt8 :=
  linkBytes n.next ++ Word.toBytes 8 0 ++ Word.toBytes 8 n.size ++ Word.toBytes 8 n.stamp ++
    Word.toBytes 8 n.value.toUInt32.toUInt64

/-- The `k`-th word of some bytes. -/
def wordOf (bytes : List UInt8) (k : Nat) : UInt64 := Word.ofBytes ((bytes.drop (8 * k)).take 8)

/-- The node with the given bytes. -/
def ofBytes (bytes : List UInt8) : Node where
  next := ofLinkWord (wordOf bytes 0)
  size := wordOf bytes 2
  stamp := wordOf bytes 3
  value := (wordOf bytes 4).toUInt32.toInt32

@[simp] theorem length_toBytes (n : Node) : n.toBytes.length = byteSize.toNat := by
  simp [toBytes, linkBytes]
  rfl

theorem ofLinkWord_linkWord {next : Option UInt64} (h : next ≠ some 0) :
    ofLinkWord (linkWord next) = next := by
  cases next with
  | none => rfl
  | some address => simp_all [ofLinkWord, linkWord]

/-- A node reads back from its bytes. -/
theorem ofBytes_toBytes (n : Node) (h : n.next ≠ some 0) : ofBytes n.toBytes = n := by
  simp [ofBytes, toBytes, wordOf, linkBytes, List.drop_append, List.drop_of_length_le,
    List.take_of_length_le, Word.ofBytes_toBytes, ofLinkWord_linkWord h]

end Node

/-- The node at an address. -/
def Allocator.node {g : Geometry} (a : Allocator g) (address : UInt64) : Node :=
  .ofBytes (a.read address Node.byteSize.toNat)

/-! ## References -/

/-- A node as its users name it, with the value that it had then. -/
structure Reference where
  address : UInt64
  stamp : UInt64
  value : Int32
deriving DecidableEq, Repr

/-- Whether two references name the same node. -/
def Reference.same (r s : Reference) : Bool := r.address == s.address && r.stamp == s.stamp

/-- Whether two optional references name the same node, or both none. -/
def Reference.same? : Option Reference → Option Reference → Bool
  | some r, some s => r.same s
  | none, none => true
  | _, _ => false

/-- A node and its address. -/
structure Placed where
  address : UInt64
  node : Node
deriving DecidableEq, Repr

/-- The reference to a node. -/
def Placed.ref (p : Placed) : Reference := ⟨p.address, p.node.stamp, p.node.value⟩

/-! ## Hosts -/

/-- An allocator for nodes, the stamp of the next node, and the faults met while blocks of removed
nodes were given back. -/
structure Host (g : Geometry) where
  allocator : Allocator g
  stamp : UInt64 := 0
  unreleased : List Fault := []

namespace Host

variable {g : Geometry}

/-- A new node that no list holds yet. A stamp is used up only if there is room for the node. -/
def place (h : Host g) (value : Int32) : Except Fault Reference × Host g :=
  match h.allocator.acquire Node.byteSize with
  | (.error fault, allocator) => (.error fault, { h with allocator })
  | (.ok token, allocator) =>
    let node : Node := ⟨none, token.size, h.stamp, value⟩
    (.ok ⟨token.address, h.stamp, value⟩,
      { h with allocator := allocator.write token.address node.toBytes, stamp := h.stamp + 1 })

/-- Gives back the block of a node that no list holds any more. -/
def dispose (h : Host g) (address : UInt64) : Host g :=
  match h.allocator.release ⟨address, (h.allocator.node address).size⟩ with
  | (.ok (), allocator) => { h with allocator }
  | (.error fault, allocator) => { h with allocator, unreleased := fault :: h.unreleased }

/-- Makes `next` the successor of the node at an address. -/
def setLink (h : Host g) (address : UInt64) (next : Option UInt64) : Host g :=
  { h with allocator := h.allocator.write address (Node.linkBytes next) }

end Host

end ArenaHeap
