import ArenaHeap.BlockSpace.Basic

/-!
# Handing out, taking back and growing blocks

Blocks are handed out first fit, and a free block never borders on another one: a block that is
taken back merges with its free neighbours.

* `handOut` : hands out the front of a free block, and keeps the rest free if it is a block's worth;
* `redirect` : redirects the chain in front of a place;
* `firstFit` : the first free block that is large enough;
* `freeAround` : the free blocks on both sides of an offset;
* `joinNext`, `FreeAround.joinPrevious` : merge a free block with those that border on it;
* `reclaim` : makes a block free again;
* `extend` : lets a block swallow the free block behind it.
-/

namespace ArenaHeap

namespace BlockSpace

variable {g : Geometry}

/-- Hands out `size` bytes at the front of the free block `b`, and all of it if the surplus is no
block of its own. The second part is what takes the place of `b` in the chain. -/
def handOut (s : BlockSpace g) (b : Block) (size : UInt64) : BlockSpace g × Option UInt64 :=
  let surplus := b.size - size
  if g.splitThreshold ≤ surplus then
    let rest := b.offset + g.headerSize + size
    ((s.write ⟨rest, .free (surplus - g.headerSize) b.header.next?⟩).write
      ⟨b.offset, .allocated size⟩, some rest)
  else
    (s.write ⟨b.offset, .allocated b.size⟩, b.header.next?)

/-- Points the free block `previous`, or the head of the chain, to `next`. -/
def redirect (s : BlockSpace g) (previous next : Option UInt64) : BlockSpace g :=
  match previous with
  | none => { s with head := next }
  | some offset =>
    s.write ⟨offset, { (s.block offset).header with next := next.getD Header.nil }⟩

/-- Hands out the first free block with `size` usable bytes: its offset, and the space after. -/
def firstFit (s : BlockSpace g) (size : UInt64) : Option (UInt64 × BlockSpace g) :=
  let (passed, rest) := s.freeChain.span fun b => b.size < size
  match rest with
  | [] => none
  | b :: _ =>
    let (taken, replacement) := s.handOut b size
    some (b.offset, taken.redirect (passed.getLast?.map Block.offset) replacement)

/-- The free blocks around an offset in the order of the chain: `before`, `previous`, the offset,
`next`. -/
structure FreeAround where
  before : Option Block
  previous : Option Block
  next : Option Block

/-- The free blocks around an offset. -/
def freeAround (s : BlockSpace g) (offset : UInt64) : FreeAround :=
  let (below, above) := s.freeChain.span fun b => b.offset ≤ offset
  ⟨below.dropLast.getLast?, below.getLast?, above.head?⟩

/-- The free block `b`, merged with the free block behind it if that borders on it. -/
def joinNext (g : Geometry) (b : Block) : Option Block → Block
  | some next => if b.stop g = next.offset then b.absorb g next else b
  | none => b

/-- The free block `b`, merged with the free block in front of it if that borders on it, and the free
block before the two. -/
def FreeAround.joinPrevious (g : Geometry) (around : FreeAround) (b : Block) : Block × Option Block :=
  match around.previous with
  | some previous =>
    if previous.stop g = b.offset then (previous.absorb g b, around.before) else (b, some previous)
  | none => (b, none)

/-- Makes the block at `offset` free, and merges it with the free blocks that border on it. -/
def reclaim (s : BlockSpace g) (offset : UInt64) : BlockSpace g :=
  let around := s.freeAround offset
  let alone : Block := ⟨offset, .free (s.block offset).size (around.next.map Block.offset)⟩
  let (merged, previous) := around.joinPrevious g (joinNext g alone around.next)
  (s.write merged).redirect (previous.map Block.offset) (some merged.offset)

/-- Lets the block at `offset` have `size` usable bytes where it is: the size that it gets, and the
space after. Only the block right behind it, if free, can be swallowed. -/
def extend (s : BlockSpace g) (offset size : UInt64) : Option (UInt64 × BlockSpace g) :=
  let block := s.block offset
  if size ≤ block.size then some (block.size, s)
  else if s.capacity ≤ block.stop g then none
  else
    let behind := s.block (block.stop g)
    if !behind.header.isFree || (block.absorb g behind).size < size then none
    else
      let previous := (s.freeAround offset).previous
      let (taken, replacement) := s.handOut (block.absorb g behind) size
      let grown := taken.redirect (previous.map Block.offset) replacement
      some ((grown.block offset).size, grown)

end BlockSpace

end ArenaHeap
