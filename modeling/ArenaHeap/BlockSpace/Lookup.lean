import ArenaHeap.BlockSpace.Basic

/-!
# From addresses to blocks

An address names a block if it is that of the block's first usable byte. There are two ways to tell:
the tag in front of the address, which user data can forge, and the walk over the blocks, which
nothing can.

* `headerOffset` : where the header would be, for an address on the grid of the arena;
* `lookupByTag` : trusts the tag there; for addresses that the allocator handed out;
* `lookupByWalk` : searches the blocks; for any address. `judge` is its verdict on an offset.
-/

namespace ArenaHeap

namespace BlockSpace

variable {g : Geometry}

/-- Where the header in front of `address` would lie. -/
def headerOffset (s : BlockSpace g) (address : UInt64) : Except Fault UInt64 :=
  match s.arena.offsetOf? address with
  | none => .error (.foreignPointer address)
  | some user =>
    if user < g.headerSize ∨ g.granularity.rem (user - g.headerSize) ≠ 0 then
      .error (.foreignPointer address)
    else .ok (user - g.headerSize)

/-- The offset of the block that was handed out at `address`, by the tag in front of it. -/
def lookupByTag (s : BlockSpace g) (address : UInt64) : Except Fault UInt64 := do
  let offset ← s.headerOffset address
  let block := s.block offset
  if block.header.isAllocated ∧ block.stop g ≤ s.capacity then .ok offset
  else if block.header.isFree then .error (.doubleFree address)
  else .error (.foreignPointer address)

/-- What blocks in physical order say about the block at `offset`, which `address` would name. -/
def judge : List Block → UInt64 → UInt64 → Except Fault UInt64
  | [], address, _ => .error (.foreignPointer address)
  | block :: blocks, address, offset =>
    if block.offset = offset then
      if block.header.isAllocated then .ok offset else .error (.doubleFree address)
    else if offset < block.offset then .error (.foreignPointer address)
    else judge blocks address offset

/-- The offset of the block that was handed out at `address`, by a walk over the blocks. -/
def lookupByWalk (s : BlockSpace g) (address : UInt64) : Except Fault UInt64 := do
  let offset ← s.headerOffset address
  judge s.blocks address offset

end BlockSpace

end ArenaHeap
