import ArenaHeap.Proofs.Chains.Answers
import ArenaHeap.Proofs.Checked.Allocator
import ArenaHeap.Proofs.Loops.Lists

/-!
# Lists by checked arithmetic

* `Host.place?`, `Host.dispose?` : a node gets a block and gives it back;
* `NodeList.insertFront?`, … and `NodeList.answer?` : the operations of a list;
* `Holds.answer?_eq` : none of them stops, wherever a list is a chain of nodes that are lent.
-/

namespace ArenaHeap

open Entry

variable {g : Geometry} {es : List Entry} {e : Entry} {toks rest : List Token}

/-! ## Nodes -/

namespace Host

variable {h : Host g} {address : UInt64}

/-- A new node that no list holds yet. -/
def place? (h : Host g) (value : Int32) : Option (Except Fault Reference × Host g) := do
  match ← h.allocator.acquire? Node.byteSize with
  | (.error fault, allocator) => some (.error fault, { h with allocator })
  | (.ok token, allocator) =>
    let node : Node := ⟨none, token.size, h.stamp, value⟩
    some (.ok ⟨token.address, h.stamp, value⟩,
      { h with allocator := allocator.write token.address node.toBytes, stamp := h.stamp + 1 })

/-- Gives back the block of a node that no list holds any more. -/
def dispose? (h : Host g) (address : UInt64) : Option (Host g) := do
  match ← h.allocator.release? ⟨address, (h.allocator.node address).size⟩ with
  | (.ok (), allocator) => some { h with allocator }
  | (.error fault, allocator) => some { h with allocator, unreleased := fault :: h.unreleased }

theorem place?_eq (hg : g.Exact) (hlent : h.allocator.Lends toks) (value : Int32) :
    h.place? value = some (h.place value) := by
  unfold place? place
  rw [hlent.acquire?_eq hg, Option.bind_eq_bind, Option.bind_some]
  rcases h.allocator.acquire Node.byteSize with ⟨_ | _, _⟩ <;> rfl

theorem dispose?_eq (hlent : h.allocator.Lends toks) (hmem : address ∈ toks.map Token.address) :
    h.dispose? address = some (h.dispose address) := by
  unfold dispose? dispose
  rw [hlent.release?_eq (t := ⟨address, (h.allocator.node address).size⟩) (Or.inl hmem), Option.bind_eq_bind,
    Option.bind_some]
  rcases h.allocator.release ⟨address, (h.allocator.node address).size⟩ with ⟨_ | _, _⟩ <;> rfl

end Host

/-! ## The operations -/

namespace NodeList

/-- Puts `value` in front of the list. -/
def insertFront? (l : NodeList) (h : Host g) (value : Int32) :
    Option (Except ListFault Reference × NodeList × Host g) := do
  match ← h.place? value with
  | (.error fault, h) => some (.error (.allocationExhausted fault), l, h)
  | (.ok ref, h) => some (.ok ref, ⟨ref.address⟩, h.setLink ref.address l.head)

/-- Puts `value` right behind the node `previous`. -/
def insertAfter? (l : NodeList) (h : Host g) (previous : Option Reference) (value : Int32) :
    Option (Except ListFault Reference × NodeList × Host g) :=
  match previous with
  | none => some (.error (.invalidArgument "previous node is none"), l, h)
  | some previous => do
    match ← h.place? value with
    | (.error fault, h) => some (.error (.allocationExhausted fault), l, h)
    | (.ok ref, h) =>
      match (l.nodes h.allocator).find? (·.ref.same previous) with
      | none =>
        let h ← h.dispose? ref.address
        some (.error .notFound, l, h)
      | some target =>
        let h := h.setLink ref.address target.node.next
        some (.ok ref, l, h.setLink target.address ref.address)

/-- Puts `value` right in front of the node `next`. -/
def insertBefore? (l : NodeList) (h : Host g) (next : Option Reference) (value : Int32) :
    Option (Except ListFault Reference × NodeList × Host g) :=
  match next with
  | none => some (.error (.invalidArgument "next node is none"), l, h)
  | some next => do
    match ← h.place? value with
    | (.error fault, h) => some (.error (.allocationExhausted fault), l, h)
    | (.ok ref, h) =>
      match (l.nodes h.allocator).span (!·.ref.same next) with
      | (_, []) =>
        let h ← h.dispose? ref.address
        some (.error .notFound, l, h)
      | (before, target :: _) =>
        let h := h.setLink ref.address target.address
        some (.ok ref, l.link h (before.getLast?.map Placed.address) ref.address)

/-- Removes the first node that holds `value`. -/
def delete? (l : NodeList) (h : Host g) (value : Int32) : Option (Except ListFault Unit × NodeList × Host g) :=
  match (l.nodes h.allocator).span (·.node.value != value) with
  | (_, []) => some (.error .notFound, l, h)
  | (before, target :: _) => do
    let (l, h) := l.link h (before.getLast?.map Placed.address) target.node.next
    let h ← h.dispose? target.address
    some (.ok (), l, h)

/-- Takes apart at most `fuel` nodes from `cursor` on, each before its block is given back. -/
def clearFrom? : Nat → Option UInt64 → Host g → Option (Host g)
  | 0, _, h => some h
  | _ + 1, none, h => some h
  | fuel + 1, some address, h => do
    let behind := (h.allocator.node address).next
    let h ← (h.setLink address none).dispose? address
    clearFrom? fuel behind h

/-- Removes every node. -/
def clear? (l : NodeList) (h : Host g) : Option (NodeList × Host g) := do
  let h ← clearFrom? (nodeBound h.allocator) l.head h
  some (⟨none⟩, h)

/-- The operation that a call stands for. -/
def answer? (l : NodeList) (h : Host g) : ListCall → Option (ListReply × NodeList × Host g)
  | .insertFront value => (l.insertFront? h value).map (Prod.map .inserted id)
  | .insertAfter previous value => (l.insertAfter? h previous value).map (Prod.map .inserted id)
  | .insertBefore next value => (l.insertBefore? h next value).map (Prod.map .inserted id)
  | .delete value => (l.delete? h value).map (Prod.map .deleted id)
  | .clear => (l.clear? h).map fun cleared => (.cleared, cleared)
  | call => some (l.answer h call)

/-! ## None of them stops -/

variable {l : NodeList} {h : Host g}

section Exact

variable (hg : g.Exact)
include hg

theorem insertFront?_eq (hlent : h.allocator.Lends toks) (value : Int32) :
    l.insertFront? h value = some (l.insertFront h value) := by
  unfold insertFront? insertFront
  rw [Host.place?_eq hg hlent, Option.bind_eq_bind, Option.bind_some]
  rcases h.place value with ⟨_ | _, _⟩ <;> rfl

/-- A new node is given back without a wrap. -/
theorem placed_dispose?_eq (hlent : h.allocator.Lends toks) {value : Int32} {h₁ : Host g} {r : Reference}
    (hplace : h.place value = (.ok r, h₁)) : h₁.dispose? r.address = some (h₁.dispose r.address) := by
  rcases Host.place_cases hg hlent value with ⟨fault, -, hfault⟩ | ⟨e, h', hplaced, hp⟩
  · rw [hplace] at hfault
    cases hfault
  · rw [hplace] at hplaced
    cases hplaced
    exact Host.dispose?_eq hp.lends List.mem_cons_self

theorem insertAfter?_eq (hlent : h.allocator.Lends toks) (previous : Option Reference) (value : Int32) :
    l.insertAfter? h previous value = some (l.insertAfter h previous value) := by
  unfold insertAfter? insertAfter
  cases previous with
  | none => rfl
  | some r =>
    simp only [Host.place?_eq hg hlent, Option.bind_eq_bind, Option.bind_some]
    rcases hplace : h.place value with ⟨_ | ref, h₁⟩
    · rfl
    · simp only [placed_dispose?_eq hg hlent hplace, Option.bind_some]
      cases (l.nodes h₁.allocator).find? (·.ref.same r) <;> rfl

theorem insertBefore?_eq (hlent : h.allocator.Lends toks) (next : Option Reference) (value : Int32) :
    l.insertBefore? h next value = some (l.insertBefore h next value) := by
  unfold insertBefore? insertBefore
  cases next with
  | none => rfl
  | some r =>
    simp only [Host.place?_eq hg hlent, Option.bind_eq_bind, Option.bind_some]
    rcases hplace : h.place value with ⟨_ | ref, h₁⟩
    · rfl
    · simp only [placed_dispose?_eq hg hlent hplace, Option.bind_some]
      rcases hspan : (l.nodes h₁.allocator).span (!·.ref.same r) with ⟨_, _ | _⟩ <;> simp only [hspan]

end Exact

theorem Holds.delete?_eq (hl : l.Holds h.allocator es) (hlent : h.allocator.Lends (es.map Entry.token ++ rest))
    (value : Int32) : l.delete? h value = some (l.delete h value) := by
  unfold delete? delete
  rcases hspan : (l.nodes h.allocator).span (·.node.value != value) with ⟨before, _ | ⟨target, behind⟩⟩
  · simp only [hspan]
  · obtain ⟨t, toks, haddress, hlent'⟩ := hl.unlinks hlent hspan
    have hmem : target.address ∈ (t :: toks).map Token.address := haddress ▸ List.mem_cons_self
    simp only [hspan, Host.dispose?_eq hlent' hmem, Option.bind_eq_bind, Option.bind_some]

theorem Remains.clearFrom?_eq {fuel : Nat} {cursor : Option UInt64} (hr : Remains rest (cursor, h) es) :
    clearFrom? fuel cursor h = some (clearFrom fuel cursor h) := by
  induction es generalizing fuel cursor h with
  | nil =>
    obtain rfl : cursor = none := hr.cursor
    cases fuel <;> rfl
  | cons e es ih =>
    obtain rfl : cursor = some e.token.address := hr.cursor
    obtain ⟨hlent, -, hr'⟩ := hr.next
    cases fuel with
    | zero => rfl
    | succ fuel =>
      unfold clearFrom? clearFrom
      simp only [Host.dispose?_eq hlent List.mem_cons_self, Option.bind_eq_bind, Option.bind_some]
      rw [hr.linked.1.2]
      exact ih hr'

theorem Holds.clear?_eq (hl : l.Holds h.allocator es) (hlent : h.allocator.Lends (es.map Entry.token ++ rest)) :
    l.clear? h = some (l.clear h) := by
  have hremains : Remains rest (l.head, h) es := ⟨hl.head, hl.linked, hlent⟩
  unfold clear?
  rw [hremains.clearFrom?_eq]
  rfl

/-- No call on a list stops. -/
theorem Holds.answer?_eq (hg : g.Exact) (hl : l.Holds h.allocator es)
    (hlent : h.allocator.Lends (es.map Entry.token ++ rest)) (call : ListCall) :
    l.answer? h call = some (l.answer h call) := by
  cases call with
  | insertFront value => exact congrArg (Option.map _) (insertFront?_eq hg hlent value)
  | insertAfter previous value => exact congrArg (Option.map _) (insertAfter?_eq hg hlent previous value)
  | insertBefore next value => exact congrArg (Option.map _) (insertBefore?_eq hg hlent next value)
  | delete value => exact congrArg (Option.map _) (hl.delete?_eq hlent value)
  | clear => exact congrArg (Option.map _) (hl.clear?_eq hlent)
  | _ => rfl

end NodeList

end ArenaHeap
