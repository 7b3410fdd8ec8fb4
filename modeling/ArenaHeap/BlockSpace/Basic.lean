import ArenaHeap.Arena
import ArenaHeap.Geometry
import ArenaHeap.Header

/-!
# Block spaces

An arena is tiled by blocks. Each starts with a header, its usable bytes follow, and the next block
starts right behind them. The free blocks are chained by offset, from the head upwards.

* `Block` : an offset and the header there; `Block.stop` is where the next block starts;
* `BlockSpace` : an arena and the head of its free chain; `BlockSpace.fresh` is one free block;
* `BlockSpace.blocks` : the blocks in physical order;
* `BlockSpace.freeChain` : the free blocks in the order of the chain;
* `BlockSpace.blockBound` : no tiling has more blocks, so neither list is cut short.
-/

namespace ArenaHeap

/-- A header and where it lies. -/
structure Block where
  offset : UInt64
  header : Header
deriving DecidableEq, Repr

namespace Block

/-- The number of usable bytes. -/
def size (b : Block) : UInt64 := b.header.size

/-- The offset of the first usable byte. -/
def start (g : Geometry) (b : Block) : UInt64 := b.offset + g.headerSize

/-- The offset behind the last usable byte. -/
def stop (g : Geometry) (b : Block) : UInt64 := b.offset + g.headerSize + b.size

/-- The free block that covers `b` and the free block right behind it. -/
def absorb (g : Geometry) (b behind : Block) : Block :=
  ⟨b.offset, .free (b.size + g.headerSize + behind.size) behind.header.next?⟩

end Block

/-- An arena that is tiled by blocks, and the offset of its first free block. -/
structure BlockSpace (g : Geometry) where
  arena : Arena
  head : Option UInt64

namespace BlockSpace

variable {g : Geometry}

/-- The number of bytes that the blocks tile. -/
def capacity (s : BlockSpace g) : UInt64 := s.arena.size

/-- The block at an offset. -/
def block (s : BlockSpace g) (offset : UInt64) : Block := ⟨offset, s.arena.memory.header offset⟩

/-- The space with the header of `b` written where it belongs. -/
def write (s : BlockSpace g) (b : Block) : BlockSpace g :=
  { s with arena.memory := s.arena.memory.setHeader b.offset b.header }

/-- A block that was written is read back. -/
theorem block_write (s : BlockSpace g) (b : Block) : (s.write b).block b.offset = b := by
  simp [block, write, Memory.header_setHeader]

/-- The address of the first usable byte of the block at an offset. -/
def address (s : BlockSpace g) (offset : UInt64) : UInt64 :=
  s.arena.addressOf (offset + g.headerSize)

/-- A tiling has at most this many blocks: each takes a header and a grain. -/
def blockBound (s : BlockSpace g) : Nat :=
  s.capacity.toNat / (g.headerSize.toNat + g.granularity.value.toNat)

/-- A fresh arena is a single free block. -/
def fresh (g : Geometry) (arena : Arena) : BlockSpace g :=
  (BlockSpace.mk arena (some 0)).write ⟨0, .free (arena.size - g.headerSize) none⟩

/-- At most `fuel` blocks, each right behind the one before, from `cursor` to the end of the arena. -/
def blocksFrom (s : BlockSpace g) : Nat → UInt64 → List Block
  | 0, _ => []
  | fuel + 1, cursor =>
    if s.capacity ≤ cursor then []
    else s.block cursor :: s.blocksFrom fuel ((s.block cursor).stop g)

/-- The blocks in physical order. -/
def blocks (s : BlockSpace g) : List Block := s.blocksFrom s.blockBound 0

/-- At most `fuel` blocks, each the chain successor of the one before, from `cursor` on. -/
def chainFrom (s : BlockSpace g) : Nat → Option UInt64 → List Block
  | 0, _ => []
  | _ + 1, none => []
  | fuel + 1, some offset => s.block offset :: s.chainFrom fuel (s.block offset).header.next?

/-- The free blocks in the order of the chain. -/
def freeChain (s : BlockSpace g) : List Block := s.chainFrom s.blockBound s.head

end BlockSpace

end ArenaHeap
