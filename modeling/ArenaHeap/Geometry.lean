import ArenaHeap.PowerOfTwo
import ArenaHeap.Fault

/-!
# The geometry of blocks

A `Geometry` names a grain and a least block; everything else about the shape of blocks follows.

* `granularity` : every block offset and every usable size is a multiple of it;
* `headerSize`, `minimumBlock` : the parts of the smallest block, both padded to the granularity;
* `splitThreshold` : the surplus from which a block is split;
* `arenaSize`, `minimumCapacity` : what is claimed for a wished capacity, and the least that is;
* `alignedSize` : the usable bytes that serve a request.
-/

namespace ArenaHeap

/-- The two choices that fix the shape of the blocks of an arena. -/
structure Geometry where
  /-- The grain of block sizes; it is raised to the alignment of a header if it is finer. -/
  grain : PowerOfTwo
  /-- The least usable size of a block that is split off a larger one. -/
  leastBlock : UInt64
deriving DecidableEq

namespace Geometry

/-- Sixteen bytes of grain and of least block. -/
def standard : Geometry := ⟨⟨16, by decide⟩, 16⟩

/-- The alignment of a header, which is that of its words. -/
def headerAlignment : PowerOfTwo := ⟨8, by decide⟩

/-- The unit of every offset and of every usable size. -/
def granularity (g : Geometry) : PowerOfTwo := max g.grain headerAlignment

/-- The bytes that the three words of a header take, padded to the granularity. -/
def headerSize (g : Geometry) : UInt64 := g.granularity.roundUp 24

/-- The least usable size of a block, padded to the granularity; no block is empty. -/
def minimumBlock (g : Geometry) : UInt64 := g.granularity.roundUp (max g.leastBlock 1)

/-- The surplus that makes a block of its own: a header and a least block. -/
def splitThreshold (g : Geometry) : UInt64 := g.headerSize + g.minimumBlock

/-- The least arena holds a header and a least block. -/
def minimumCapacity (g : Geometry) : UInt64 := g.splitThreshold

/-- The bytes that are claimed for a wished `capacity`. -/
def arenaSize (g : Geometry) (capacity : UInt64) : UInt64 := g.granularity.roundDown capacity

/-- The usable bytes that serve a request of `size` bytes from an arena of `capacity` bytes. -/
def alignedSize (g : Geometry) (size capacity : UInt64) : Except Fault UInt64 :=
  if size = 0 then .error .zeroSize
  else if capacity < size then .error (.tooLarge size capacity)
  else match g.granularity.roundUp? size with
    | some aligned => .ok aligned
    | none => .error (.tooLarge size capacity)

end Geometry

end ArenaHeap
