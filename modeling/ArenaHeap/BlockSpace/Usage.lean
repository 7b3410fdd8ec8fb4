import ArenaHeap.BlockSpace.Basic

/-!
# The occupation of a block space

* `Usage` : counts and sums over the blocks; `Usage.accounted` is all that they cover;
* `BlockSpace.usage` : one walk over the blocks.
-/

namespace ArenaHeap

/-- The occupation of a block space. -/
structure Usage where
  capacity : UInt64
  /-- The number of blocks that are handed out. -/
  allocatedBlocks : UInt64 := 0
  /-- The usable bytes of the blocks that are handed out. -/
  allocatedBytes : UInt64 := 0
  /-- The number of free blocks. -/
  freeBlocks : UInt64 := 0
  /-- The usable bytes of the free blocks. -/
  freeBytes : UInt64 := 0
  /-- The usable bytes of the largest free block. -/
  largestFree : UInt64 := 0
  /-- The bytes that headers take. -/
  overhead : UInt64 := 0
deriving DecidableEq, Repr

namespace Usage

/-- The bytes that blocks and headers cover. -/
def accounted (u : Usage) : UInt64 := u.allocatedBytes + u.freeBytes + u.overhead

/-- The occupation with one more block. -/
def add (g : Geometry) (u : Usage) (b : Block) : Usage :=
  if b.header.isFree then
    { u with
      freeBlocks := u.freeBlocks + 1
      freeBytes := u.freeBytes + b.size
      largestFree := max u.largestFree b.size
      overhead := u.overhead + g.headerSize }
  else
    { u with
      allocatedBlocks := u.allocatedBlocks + 1
      allocatedBytes := u.allocatedBytes + b.size
      overhead := u.overhead + g.headerSize }

end Usage

/-- The occupation of a space, block by block. -/
def BlockSpace.usage {g : Geometry} (s : BlockSpace g) : Usage :=
  s.blocks.foldl (Usage.add g) { capacity := s.capacity }

end ArenaHeap
