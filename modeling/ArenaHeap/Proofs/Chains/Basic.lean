import ArenaHeap.NodeList.Basic
import ArenaHeap.Proofs.Loans.Allocator
import ArenaHeap.Proofs.Memory

/-!
# Chains of nodes

* `Entry` : a node without its link; `Entry.node` is the node with a link;
* `first`, `placed` : the address and the nodes that a chain of entries calls for;
* `Linked` : the entries lie in the memory of an allocator, each linked to the next;
* `NodeList.Holds` : a list is such a chain, from its head to the end (`Holds.nodes_eq`);
* `place_cases`, `setLink_spec`, `dispose_spec` : the three ways to write a node; `Host.Makes` and
  `Host.Places` are what is known of a new one.
-/

namespace ArenaHeap

/-- A node without its link: the block that it lives in, and what it holds. -/
structure Entry where
  token : Token
  stamp : UInt64
  value : Int32
deriving DecidableEq

namespace Entry

variable {g : Geometry} {a a' : Allocator g} {es as bs : List Entry} {e : Entry} {link : Option UInt64}

/-- The node with a link. -/
def node (e : Entry) (next : Option UInt64) : Node := ⟨next, e.token.size, e.stamp, e.value⟩

/-- The reference to the node. -/
def ref (e : Entry) : Reference := ⟨e.token.address, e.stamp, e.value⟩

/-- The node with a link, and its address. -/
def withLink (e : Entry) (next : Option UInt64) : Placed := ⟨e.token.address, e.node next⟩

@[simp] theorem ref_withLink (e : Entry) (next : Option UInt64) : (e.withLink next).ref = e.ref := rfl

theorem same_eq_false {e e' : Entry} (hne : e'.token.address ≠ e.token.address) :
    e'.ref.same e.ref = false := by
  unfold Reference.same
  rw [Bool.and_eq_false_iff]
  exact Or.inl (beq_eq_false_iff_ne.mpr hne)

/-- The address of the first entry, or `link` if there is none. -/
def first (link : Option UInt64) : List Entry → Option UInt64
  | [] => link
  | e :: _ => some e.token.address

/-- The nodes that a chain calls for. The last is linked to `link`. -/
def placed (link : Option UInt64) : List Entry → List Placed
  | [] => []
  | e :: es => e.withLink (first link es) :: placed link es

/-- The entries lie in memory, each linked to the next and the last to `link`. -/
def Linked (a : Allocator g) (link : Option UInt64) : List Entry → Prop
  | [] => True
  | e :: es =>
    (Node.byteSize ≤ e.token.size ∧ a.node e.token.address = e.node (first link es)) ∧ Linked a link es

@[simp] theorem first_append (as bs : List Entry) : first link (as ++ bs) = first (first link bs) as := by
  cases as <;> rfl

@[simp] theorem placed_append (as bs : List Entry) :
    placed link (as ++ bs) = placed (first link bs) as ++ placed link bs := by
  induction as with
  | nil => rfl
  | cons e as ih => rw [List.cons_append, placed, placed, ih, first_append, List.cons_append]

theorem linked_append : Linked a link (as ++ bs) ↔ Linked a (first link bs) as ∧ Linked a link bs := by
  induction as with
  | nil => exact ⟨fun h => ⟨trivial, h⟩, fun h => h.2⟩
  | cons e as ih =>
    rw [List.cons_append, Linked, Linked, ih, first_append]
    exact and_assoc.symm

theorem mem_placed {p : Placed} (hp : p ∈ placed link es) : ∃ e ∈ es, ∃ next, p = e.withLink next := by
  induction es with
  | nil => cases hp
  | cons e es ih =>
    rcases List.mem_cons.mp hp with rfl | hp
    · exact ⟨e, List.mem_cons_self, _, rfl⟩
    · obtain ⟨e', he', next, rfl⟩ := ih hp
      exact ⟨e', List.mem_cons_of_mem _ he', next, rfl⟩

@[simp] theorem length_placed (link : Option UInt64) (es : List Entry) :
    (placed link es).length = es.length := by
  induction es with
  | nil => rfl
  | cons e es ih => rw [placed, List.length_cons, ih, List.length_cons]

@[simp] theorem map_ref_placed (link : Option UInt64) (es : List Entry) :
    (placed link es).map Placed.ref = es.map ref := by
  induction es with
  | nil => rfl
  | cons e es ih => rw [placed, List.map_cons, ih, List.map_cons, ref_withLink]

theorem map_address_placed (link : Option UInt64) (es : List Entry) :
    (placed link es).map Placed.address = es.map fun e => e.token.address := by
  induction es with
  | nil => rfl
  | cons e es ih => rw [placed, List.map_cons, ih, List.map_cons, withLink]

theorem Linked.room (h : Linked a link es) (he : e ∈ es) : Node.byteSize ≤ e.token.size := by
  induction es with
  | nil => cases he
  | cons x es ih =>
    rcases List.mem_cons.mp he with rfl | he
    · exact h.1.1
    · exact ih h.2 he

theorem Linked.congr (h : Linked a link es)
    (hnode : ∀ e ∈ es, a'.node e.token.address = a.node e.token.address) : Linked a' link es := by
  induction es with
  | nil => trivial
  | cons x es ih =>
    refine ⟨⟨h.1.1, ?_⟩, ih h.2 fun e he => hnode e (List.mem_cons_of_mem _ he)⟩
    rw [hnode x List.mem_cons_self]
    exact h.1.2

end Entry

open Entry

variable {g : Geometry} {a a' : Allocator g} {es : List Entry} {e : Entry} {toks : List Token}

theorem Allocator.Spares.node {t : Token} (h : a.Spares a' toks) (ht : t ∈ toks)
    (hroom : Node.byteSize ≤ t.size) : a'.node t.address = a.node t.address := by
  rw [Allocator.node, Allocator.node, h.bytes t ht _ (UInt64.le_iff_toNat_le.mp hroom)]

theorem Entry.Linked.spares {link : Option UInt64} (h : Linked a link es) (hs : a.Spares a' toks)
    (hsub : ∀ e ∈ es, e.token ∈ toks) : Linked a' link es :=
  h.congr fun e he => hs.node (hsub e he) (h.room he)

namespace NodeList

variable {l : NodeList}

/-- The list is the chain of the entries, from its head to the end. -/
structure Holds (l : NodeList) (a : Allocator g) (es : List Entry) : Prop where
  head : l.head = first none es
  linked : Linked a none es

theorem nodesFrom_eq {fuel : Nat} (h : Linked a none es) (hfuel : es.length ≤ fuel) :
    nodesFrom a fuel (first none es) = placed none es := by
  induction es generalizing fuel with
  | nil => cases fuel <;> rfl
  | cons e es ih =>
    obtain ⟨fuel, rfl⟩ : ∃ n, fuel = n + 1 := ⟨fuel - 1, by rw [List.length_cons] at hfuel; omega⟩
    rw [List.length_cons] at hfuel
    unfold first
    rw [nodesFrom, h.1.2, placed, Entry.withLink]
    congr 1
    exact ih h.2 (by omega)

theorem length_le_nodeBound (hlent : a.Lends toks) (hsub : (es.map Entry.token).Sublist toks) :
    es.length ≤ nodeBound a := by
  have hle := hsub.length_le
  rw [List.length_map] at hle
  exact hle.trans hlent.length_le

theorem Holds.nodes_eq {rest : List Token} (h : l.Holds a es)
    (hlent : a.Lends (es.map Entry.token ++ rest)) : l.nodes a = placed none es := by
  unfold nodes
  rw [h.head]
  exact nodesFrom_eq h.linked (length_le_nodeBound hlent (List.sublist_append_left _ _))

end NodeList

/-! ## Writing nodes -/

theorem Allocator.read_write_prefix (h : a.isInitialized = true) (address : UInt64) {bs : List UInt8}
    {n : Nat} (hn : bs.length ≤ n) :
    (a.write address bs).read address n = bs ++ (a.read address n).drop bs.length := by
  obtain ⟨s, hs⟩ := Option.isSome_iff_exists.mp h
  simp only [Allocator.write, Allocator.read, hs]
  have hinside := s.arena.memory.bytes_setBytes_inside (s.arena.position address) 0
    (show 0 + bs.length ≤ n by omega)
  rw [Nat.add_zero, Nat.zero_add, List.take_zero, List.nil_append] at hinside
  exact hinside

theorem Node.ofBytes_relink {next : Option UInt64} (hnext : next ≠ some 0) (old : List UInt8) :
    Node.ofBytes (Node.linkBytes next ++ old.drop 8) = { Node.ofBytes old with next := next } := by
  have hlen : (Node.linkBytes next).length = 8 := by simp [Node.linkBytes]
  have hlink : Node.wordOf (Node.linkBytes next ++ old.drop 8) 0 = Node.linkWord next := by
    rw [Node.wordOf, Nat.mul_zero, List.drop_zero, List.take_append_of_le_length (by omega),
      List.take_of_length_le (by omega), Node.linkBytes, Word.ofBytes_toBytes]
  have hrest (k : Nat) : Node.wordOf (Node.linkBytes next ++ old.drop 8) (k + 1) = Node.wordOf old (k + 1) := by
    rw [Node.wordOf, Node.wordOf, List.drop_append, List.drop_of_length_le (by omega), List.nil_append,
      List.drop_drop, hlen, show 8 + (8 * (k + 1) - 8) = 8 * (k + 1) by omega]
  simp only [Node.ofBytes, hlink, hrest, Node.ofLinkWord_linkWord hnext]

namespace Host

variable {h h' : Host g} {t : Token}

theorem setLink_spec (hlent : h.allocator.Lends (t :: toks)) (hroom : Node.byteSize ≤ t.size)
    {next : Option UInt64} (hnext : next ≠ some 0) :
    (h.setLink t.address next).allocator.Lends (t :: toks) ∧
      h.allocator.Spares (h.setLink t.address next).allocator toks ∧
      (h.setLink t.address next).allocator.node t.address = { h.allocator.node t.address with next } := by
  have hsize : 40 ≤ t.size.toNat := UInt64.le_iff_toNat_le.mp hroom
  have hlen : (Node.linkBytes next).length = 8 := by simp [Node.linkBytes]
  have hfit : 0 + (Node.linkBytes next).length ≤ t.size.toNat := by omega
  have hwrite := hlent.write hfit
  have hzero : t.address + UInt64.ofNat 0 = t.address := UInt64.add_zero _
  have hready := hlent.isInitialized List.mem_cons_self
  rw [hzero] at hwrite
  refine ⟨hwrite.1, hwrite.2, ?_⟩
  have hbytes := Allocator.read_write_prefix hready t.address
    (show (Node.linkBytes next).length ≤ Node.byteSize.toNat by rw [hlen]; decide)
  unfold setLink
  rw [Allocator.node, hbytes, hlen, Node.ofBytes_relink hnext]
  rfl

/-- The entry of the node that a host makes for a value: the allocator has a block for it. -/
structure Makes (h : Host g) (value : Int32) (e : Entry) : Prop where
  acquired : (h.allocator.acquire Node.byteSize).1 = .ok e.token
  stamp : e.stamp = h.stamp
  value : e.value = value

theorem Makes.entry {value : Int32} (hm : h.Makes value e) : (⟨e.token, h.stamp, value⟩ : Entry) = e := by
  rw [← hm.stamp, ← hm.value]

/-- A node for the entry `e` was made in a new block. It is linked to nothing, and `toks` were spared. -/
structure Places (h h' : Host g) (toks : List Token) (value : Int32) (e : Entry) : Prop extends
    h.Makes value e where
  room : Node.byteSize ≤ e.token.size
  lends : h'.allocator.Lends (e.token :: toks)
  spares : h.allocator.Spares h'.allocator toks
  node : h'.allocator.node e.token.address = e.node none
  advanced : h'.stamp = h.stamp + 1
  unreleased : h'.unreleased = h.unreleased

theorem place_cases (hg : g.Exact) (hlent : h.allocator.Lends toks) (value : Int32) :
    (∃ fault, (h.allocator.acquire Node.byteSize).1 = .error fault ∧ h.place value = (.error fault, h)) ∨
      ∃ (e : Entry) (h' : Host g), h.place value = (.ok e.ref, h') ∧ h.Places h' toks value e := by
  rcases hlent.acquire_cases hg Node.byteSize with
    ⟨fault, hfault⟩ | ⟨t, a', hacquire, hroom, hlent', hspares⟩
  · exact Or.inl ⟨fault, congrArg Prod.fst hfault, by simp only [place, hfault]⟩
  right
  let e : Entry := ⟨t, h.stamp, value⟩
  have hlen : (e.node none).toBytes.length = Node.byteSize.toNat := Node.length_toBytes _
  have hfit : 0 + (e.node none).toBytes.length ≤ t.size.toNat := by omega
  have hwrite := hlent'.write hfit
  have hzero : t.address + UInt64.ofNat 0 = t.address := UInt64.add_zero _
  rw [hzero] at hwrite
  have hready := hlent'.isInitialized List.mem_cons_self
  have hnext : (e.node none).next ≠ some 0 := by simp [Entry.node]
  have hnode : (a'.write t.address (e.node none).toBytes).node t.address = e.node none := by
    unfold Allocator.node
    rw [← hlen, a'.read_write hready, Node.ofBytes_toBytes _ hnext]
  refine ⟨e, { h with allocator := a'.write t.address (e.node none).toBytes, stamp := h.stamp + 1 }, ?_, ?_⟩
  · simp only [place, hacquire]
    rfl
  · exact ⟨⟨congrArg Prod.fst hacquire, rfl, rfl⟩, UInt64.le_iff_toNat_le.mpr hroom, hwrite.1,
      hspares.trans hwrite.2, hnode, rfl, rfl⟩

theorem Places.address_ne_zero {value : Int32} (hp : h.Places h' toks value e) :
    some e.token.address ≠ some 0 :=
  fun he => hp.lends.address_ne_zero List.mem_cons_self (Option.some.inj he)

theorem Places.setLink {value : Int32} (hp : h.Places h' toks value e) {next : Option UInt64}
    (hnext : next ≠ some 0) :
    (h'.setLink e.token.address next).allocator.Lends (e.token :: toks) ∧
      h.allocator.Spares (h'.setLink e.token.address next).allocator toks ∧
      (h'.setLink e.token.address next).allocator.node e.token.address = e.node next := by
  obtain ⟨hlent, hspares, hnode⟩ := setLink_spec hp.lends hp.room hnext
  refine ⟨hlent, hp.spares.trans hspares, ?_⟩
  rw [hnode, hp.node]
  rfl

theorem dispose_spec (hlent : h.allocator.Lends (t :: toks)) :
    ∃ a', h.allocator.release t = (.ok (), a') ∧ h.dispose t.address = { h with allocator := a' } ∧
      a'.Lends toks ∧ h.allocator.Spares a' toks := by
  obtain ⟨a', hrelease, hlent', hspares⟩ := hlent.release
  refine ⟨a', hrelease, ?_, hlent', hspares⟩
  have hsame : h.allocator.release ⟨t.address, (h.allocator.node t.address).size⟩ = (.ok (), a') := hrelease
  simp only [dispose, hsame]

end Host

end ArenaHeap
