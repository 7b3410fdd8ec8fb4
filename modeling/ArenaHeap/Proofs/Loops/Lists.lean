import ArenaHeap.Proofs.Chains.Edits
import ArenaHeap.Proofs.Loans.Resizing
import ArenaHeap.Proofs.Loops.Space
import Mathlib.Data.List.TakeWhile

/-!
# The loops of allocators and lists

* `Allocator.LoopsEnd` : the loops over the blocks of an allocator end, also in the middle of a move;
* `NodeList.nextNode` : how a walk along a list goes on;
* `seeking`, `counting`, `collecting` : the loops over nodes, and their outcomes over a list;
* `NodeList.LoopsEnd` : all of them end, with the outcomes that the operations go by;
* `NodeList.nextRemoval` : how the removal of all nodes goes on, which changes the memory that it walks through;
* `NodeList.EditsEnd` : that ends as well, and so do all loops in the middle of an edit;
* `Lends.loopsEnd`, `Holds.loopsEnd`, `Holds.editsEnd` : so it is wherever a list is a chain of nodes that are lent.
-/

namespace ArenaHeap

open Entry Tiling

variable {g : Geometry} {a : Allocator g} {es : List Entry} {e : Entry} {toks rest : List Token}

/-! ## Allocators -/

/-- The loops over the blocks of an allocator end, also when a block was copied to its new place and is yet to be
given back. -/
structure Allocator.LoopsEnd (a : Allocator g) : Prop where
  space : ∀ s, a.space = some s → s.LoopsEnd
  move : ∀ s, a.space = some s → ∀ (t : Token) (size aligned target : UInt64) (s' : BlockSpace g),
    g.alignedSize size s.capacity = .ok aligned → s.firstFit aligned = some (target, s') →
    (s'.withCopy (s'.arena.position t.address) (s'.arena.position (s'.address target)) (min t.size size).toNat).LoopsEnd

theorem Allocator.Lends.loopsEnd (hg : g.Exact) (h : a.Lends toks) : a.LoopsEnd := by
  refine ⟨fun s hs => ?_, fun s hs t size aligned target s' haligned hfirst => ?_⟩
  all_goals obtain ⟨ts, hsound⟩ := h.sound hs
  · exact hsound.loopsEnd
  · obtain ⟨q, ts', -, -, -, hcopied⟩ := hsound.firstFit_copy hg haligned hfirst
    exact (hcopied t).loopsEnd

namespace NodeList

variable {l : NodeList} {h : Host g}

/-! ## Walks along a list -/

/-- The node at a cursor, and what it is linked to. -/
def nextNode (a : Allocator g) (cursor : Option UInt64) : Option (Placed × Option UInt64) :=
  cursor.map fun address => (⟨address, a.node address⟩, (a.node address).next)

/-- The search for a node, with the address of the one before it. -/
def seeking (q : Placed → Bool) : Loop Placed (Option UInt64) (Option (Option UInt64 × Placed)) where
  visit previous p := if q p then .leave (some (previous, p)) else .go (some p.address)
  finish _ := none

/-- The counting of nodes. -/
def counting : Loop Placed Nat Nat where
  visit n _ := .go (n + 1)
  finish n := n

/-- The collection of the values between two references, once it has started. -/
def collecting (start stop : Option Reference) : Loop Placed (Bool × List Int32) (List Int32) where
  visit soFar p :=
    if soFar.1 || start.any p.ref.same then
      if stop.any p.ref.same then .leave (soFar.2 ++ [p.node.value])
      else .go (true, soFar.2 ++ [p.node.value])
    else .go (false, soFar.2)
  finish soFar := soFar.2

theorem linked_iterates (hl : Linked a none es) :
    Iterates (nextNode a) (first none es) (placed none es) none := by
  induction es with
  | nil => exact .stop rfl
  | cons e es ih =>
    refine .step ?_ (ih hl.2)
    rw [first, nextNode, Option.map_some, hl.1.2]
    rfl

theorem fold_seeking (q : Placed → Bool) (ps : List Placed) : (seeking q).fold none ps =
    (ps.find? q).map fun target => ((ps.takeWhile (!q ·)).getLast?.map Placed.address, target) := by
  have hspan := Loop.fold_span (seeking q) (fun p => !q p) (fun passed => passed.getLast?.map Placed.address)
    (fun passed found? => found?.map fun target => (passed.getLast?.map Placed.address, target))
    ?_ ?_ (fun _ => rfl) [] ps
  · rw [List.find?_eq_head?_dropWhile_not]
    rw [List.span_eq_takeWhile_dropWhile] at hspan
    exact hspan
  · intro passed p hp
    have hnot : ¬ q p = true := by simpa using hp
    rw [List.getLast?_concat]
    exact if_neg hnot
  · intro passed p hp
    have hq : q p = true := by simpa using hp
    exact if_pos hq

theorem fold_counting (ps : List Placed) : counting.fold 0 ps = ps.length := by
  rw [Loop.fold_foldl counting (fun n _ => n + 1) (fun _ _ => rfl)]
  exact List.foldl_add_const.trans (by rw [Nat.zero_add, Nat.one_mul])

theorem fold_collecting (start stop : Option Reference) (ps : List Placed) (started : Bool) (values : List Int32) :
    (collecting start stop).fold (started, values) ps = values ++ slice start stop started ps := by
  induction ps generalizing started values with
  | nil => exact (List.append_nil values).symm
  | cons p ps ih =>
    unfold slice
    by_cases hstarted : (started || start.any p.ref.same) = true
    · rw [if_pos hstarted]
      by_cases hstop : stop.any p.ref.same = true
      · rw [if_pos hstop]
        exact Loop.fold_leave ((if_pos hstarted).trans (if_pos hstop)) ps
      · rw [if_neg hstop, Loop.fold_go ((if_pos hstarted).trans (if_neg hstop)), ih, List.append_assoc,
          List.singleton_append]
    · rw [if_neg hstarted, Loop.fold_go (if_neg hstarted), ih]

/-- All loops over the nodes of a list end: none visits a node twice, and none visits more nodes than the arena has
room for blocks. Their outcomes are what the operations go by. -/
structure LoopsEnd (l : NodeList) (a : Allocator g) : Prop where
  find : ∀ q, (seeking q).EndsWithin (nextNode a) l.head none Placed.address (nodeBound a)
    (((l.nodes a).find? q).map fun target => (((l.nodes a).takeWhile (!q ·)).getLast?.map Placed.address, target))
  count : counting.EndsWithin (nextNode a) l.head 0 Placed.address (nodeBound a) (l.count a)
  range : ∀ start stop, (collecting start stop).EndsWithin (nextNode a) l.head (start.isNone, []) Placed.address
    (nodeBound a) (l.range a start stop)
  nodes : ∀ {τ ρ : Type} (loop : Loop Placed τ ρ) (t : τ),
    loop.EndsWithin (nextNode a) l.head t Placed.address (nodeBound a) (loop.fold t (l.nodes a))

theorem nodup_addresses (hlent : a.Lends (es.map Entry.token ++ rest)) :
    (es.map fun e => e.token.address).Nodup := by
  have hnodup := hlent.nodup
  rw [List.map_append, List.map_map] at hnodup
  exact (List.nodup_append.mp hnodup).1

theorem Holds.loopsEnd (hl : l.Holds a es) (hlent : a.Lends (es.map Entry.token ++ rest)) : l.LoopsEnd a := by
  have hnodes := hl.nodes_eq hlent
  have hiterates : Iterates (nextNode a) l.head (l.nodes a) none := by
    rw [hnodes, hl.head]
    exact linked_iterates hl.linked
  have hloop {τ ρ : Type} (loop : Loop Placed τ ρ) (t : τ) :
      loop.EndsWithin (nextNode a) l.head t Placed.address (nodeBound a) (loop.fold t (l.nodes a)) := by
    refine hiterates.endsWithin loop t ?_ ?_
    · rw [hnodes, map_address_placed]
      exact nodup_addresses hlent
    · rw [hnodes, length_placed]
      exact length_le_nodeBound hlent (List.sublist_append_left _ _)
  refine ⟨fun q => ?_, ?_, fun start stop => ?_, hloop⟩
  · rw [← fold_seeking]
    exact hloop _ _
  · rw [count, ← fold_counting]
    exact hloop _ _
  · rw [range, ← List.nil_append (slice _ _ _ _), ← fold_collecting]
    exact hloop _ _

/-! ## Removing all nodes -/

/-- The removal of the node at a cursor: its link is read and cleared, and its block is given back. -/
def nextRemoval : Option UInt64 × Host g → Option (UInt64 × (Option UInt64 × Host g))
  | (none, _) => none
  | (some address, h) => some (address, (h.allocator.node address).next, (h.setLink address none).dispose address)

/-- The entries that are yet to be removed. -/
structure Remains (rest : List Token) (k : Option UInt64 × Host g) (es : List Entry) : Prop where
  cursor : k.1 = first none es
  linked : Linked k.2.allocator none es
  lends : k.2.allocator.Lends (es.map Entry.token ++ rest)

theorem Remains.next (hr : Remains rest (some e.token.address, h) (e :: es)) :
    (h.setLink e.token.address none).allocator.Lends ((e :: es).map Entry.token ++ rest) ∧
      nextRemoval (some e.token.address, h) =
        some (e.token.address, first none es, (h.setLink e.token.address none).dispose e.token.address) ∧
      Remains rest (first none es, (h.setLink e.token.address none).dispose e.token.address) es := by
  obtain ⟨⟨hroom, hnode⟩, hlinked⟩ := hr.linked
  have hnone : (none : Option UInt64) ≠ some 0 := nofun
  obtain ⟨hlent, hspares, -⟩ := Host.setLink_spec hr.lends hroom hnone
  obtain ⟨a', -, hdispose, hlent', hspares'⟩ := Host.dispose_spec hlent
  refine ⟨hlent, ?_, rfl, ?_, ?_⟩
  · show some (_, (h.allocator.node e.token.address).next, _) = _
    rw [show h.allocator.node e.token.address = e.node (first none es) from hnode]
    rfl
  · rw [hdispose]
    exact hlinked.spares (hspares.trans hspares') fun e he => mem_tokens he rest
  · rw [hdispose]
    exact hlent'

theorem Remains.iterates {fuel : Nat} {cursor : Option UInt64} (hr : Remains rest (cursor, h) es)
    (hfuel : es.length ≤ fuel) :
    Iterates nextRemoval (cursor, h) (es.map fun e => e.token.address) (none, clearFrom fuel cursor h) := by
  induction es generalizing fuel cursor h with
  | nil =>
    obtain rfl : cursor = none := hr.cursor
    cases fuel <;> exact .stop rfl
  | cons e es ih =>
    obtain rfl : cursor = some e.token.address := hr.cursor
    obtain ⟨fuel, rfl⟩ : ∃ n, fuel = n + 1 := ⟨fuel - 1, by rw [List.length_cons] at hfuel; omega⟩
    rw [List.length_cons] at hfuel
    obtain ⟨-, hnext, hr'⟩ := hr.next
    refine .step hnext ?_
    rw [clearFrom, hr.linked.1.2]
    exact ih hr' (by omega)

/-- On the way, some entries are yet to be removed. -/
theorem Remains.passes {k k' : Option UInt64 × Host g} (hr : Remains rest k es) (h : Passes nextRemoval k k') :
    ∃ es', Remains rest k' es' := by
  induction h with
  | refl => exact ⟨es, hr⟩
  | @step k₁ k₂ address h hk ih =>
    obtain ⟨es', hr'⟩ := ih
    obtain ⟨cursor, h₁⟩ := k₁
    cases es' with
    | nil =>
      obtain rfl : cursor = none := hr'.cursor
      cases hk
    | cons e es' =>
      obtain rfl : cursor = some e.token.address := hr'.cursor
      obtain ⟨-, hnext, hr₂⟩ := hr'.next
      rw [hnext] at hk
      cases hk
      exact ⟨es', hr₂⟩

/-! ## Edits -/

/-- The loops in the middle of an edit end: those that look for a place when the new node was made, that which takes
back the block of a node that was taken out of the list, and the removal of all nodes with all that it does on its
way. -/
structure EditsEnd (l : NodeList) (h : Host g) : Prop where
  placed : ∀ value, l.LoopsEnd (h.place value).2.allocator ∧ (h.place value).2.allocator.LoopsEnd
  unlinked : ∀ value before target behind,
    (l.nodes h.allocator).span (·.node.value != value) = (before, target :: behind) →
    (l.link h (before.getLast?.map Placed.address) target.node.next).2.allocator.LoopsEnd
  cleared : ∃ addresses, Iterates nextRemoval (l.head, h) addresses (none, (l.clear h).2) ∧ addresses.Nodup ∧
    addresses.length ≤ nodeBound h.allocator
  removal : ∀ k, Passes nextRemoval (l.head, h) k → k.2.allocator.LoopsEnd ∧
    ∀ address ∈ k.1, (k.2.setLink address none).allocator.LoopsEnd

section Exact

variable (hg : g.Exact)
include hg

theorem Holds.loopsEnd_placed (hl : l.Holds h.allocator es)
    (hlent : h.allocator.Lends (es.map Entry.token ++ rest)) (value : Int32) :
    l.LoopsEnd (h.place value).2.allocator ∧ (h.place value).2.allocator.LoopsEnd := by
  rcases Host.place_cases hg hlent value with ⟨fault, -, hplace⟩ | ⟨e, h₁, hplace, hp⟩
  · rw [hplace]
    exact ⟨hl.loopsEnd hlent, hlent.loopsEnd hg⟩
  · rw [hplace]
    have hl₁ := hl.spares hp.spares fun e he => mem_tokens he rest
    exact ⟨hl₁.loopsEnd (hp.lends.perm List.perm_middle.symm), hp.lends.loopsEnd hg⟩

theorem Holds.editsEnd (hl : l.Holds h.allocator es) (hlent : h.allocator.Lends (es.map Entry.token ++ rest)) :
    l.EditsEnd h := by
  have hremains : Remains rest (l.head, h) es := ⟨hl.head, hl.linked, hlent⟩
  have hlength := length_le_nodeBound hlent (List.sublist_append_left (es.map Entry.token) rest)
  refine ⟨hl.loopsEnd_placed hg hlent, fun value before target behind hspan => ?_, ?_, fun k hk => ?_⟩
  · obtain ⟨t, toks, -, hlent'⟩ := hl.unlinks hlent hspan
    exact hlent'.loopsEnd hg
  · exact ⟨_, hremains.iterates hlength, nodup_addresses hlent, by rwa [List.length_map]⟩
  · obtain ⟨es', hr⟩ := hremains.passes hk
    obtain ⟨cursor, h'⟩ := k
    refine ⟨hr.lends.loopsEnd hg, fun address haddress => ?_⟩
    obtain rfl : cursor = some address := haddress
    cases es' with
    | nil => cases hr.cursor
    | cons e es' =>
      obtain rfl : address = e.token.address := Option.some.inj hr.cursor
      exact hr.next.1.loopsEnd hg

end Exact

end NodeList

end ArenaHeap
