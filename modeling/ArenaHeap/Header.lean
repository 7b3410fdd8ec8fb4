import ArenaHeap.Memory

/-!
# Block headers

A header is three words in front of the usable bytes of a block: their number, the offset of the
next free block, and a tag.

* `Header.free`, `Header.allocated` : the headers that are ever written;
* `Header.isFree`, `Header.isAllocated`, `Header.next?` : what a header says;
* `Memory.header`, `Memory.setHeader` : a header in memory (`header_setHeader`, `header_congr`).
-/

namespace ArenaHeap

/-- The three words in front of a block. -/
structure Header where
  /-- The number of usable bytes that follow. -/
  size : UInt64
  /-- The offset of the next free block, or `Header.nil`. -/
  next : UInt64
  tag : UInt64
deriving DecidableEq, Repr

namespace Header

/-- The tag of free blocks. -/
def freeTag : UInt64 := 0xF4EEB10C

/-- The tag of blocks that were handed out. -/
def allocatedTag : UInt64 := 0xA110CA7E

/-- Stands for "no next block". -/
def nil : UInt64 := 0xFFFFFFFFFFFFFFFF

/-- The header of a free block. -/
def free (size : UInt64) (next : Option UInt64) : Header := ⟨size, next.getD nil, freeTag⟩

/-- The header of a block that was handed out. -/
def allocated (size : UInt64) : Header := ⟨size, nil, allocatedTag⟩

def isFree (h : Header) : Bool := h.tag == freeTag

def isAllocated (h : Header) : Bool := h.tag == allocatedTag

/-- The offset of the next free block. -/
def next? (h : Header) : Option UInt64 := if h.next = nil then none else some h.next

end Header

namespace Memory

/-- The header at an offset. -/
def header (m : Memory) (offset : UInt64) : Header :=
  ⟨m.word offset.toNat, m.word (offset.toNat + 8), m.word (offset.toNat + 16)⟩

/-- The memory with header `h` at an offset. -/
def setHeader (m : Memory) (offset : UInt64) (h : Header) : Memory :=
  ((m.setWord offset.toNat h.size).setWord (offset.toNat + 8) h.next).setWord
    (offset.toNat + 16) h.tag

/-- A header that was written is read back. -/
theorem header_setHeader (m : Memory) (offset : UInt64) (h : Header) :
    (m.setHeader offset h).header offset = h := by
  have hsize : (m.setHeader offset h).word offset.toNat = h.size := by
    rw [setHeader, word_setWord_of_disjoint (by omega), word_setWord_of_disjoint (by omega),
      word_setWord]
  have hnext : (m.setHeader offset h).word (offset.toNat + 8) = h.next := by
    rw [setHeader, word_setWord_of_disjoint (by omega), word_setWord]
  have htag : (m.setHeader offset h).word (offset.toNat + 16) = h.tag := by
    rw [setHeader, word_setWord]
  rw [header, hsize, hnext, htag]

/-- Cells outside the 24 bytes of a header keep their byte. -/
theorem get_setHeader_of_ne {m : Memory} {offset : UInt64} {h : Header} {j : Nat}
    (hj : j < offset.toNat ∨ offset.toNat + 24 ≤ j) : (m.setHeader offset h).get j = m.get j := by
  rw [setHeader, get_setWord_of_ne (by omega), get_setWord_of_ne (by omega),
    get_setWord_of_ne (by omega)]

/-- A header depends on its 24 cells alone. -/
theorem header_congr {m m' : Memory} {offset : UInt64}
    (h : ∀ k < 24, m'.get (offset.toNat + k) = m.get (offset.toNat + k)) :
    m'.header offset = m.header offset := by
  have hsize : m'.word offset.toNat = m.word offset.toNat :=
    word_congr fun k hk => h k (by omega)
  have hnext : m'.word (offset.toNat + 8) = m.word (offset.toNat + 8) :=
    word_congr fun k hk => by simpa [Nat.add_assoc] using h (8 + k) (by omega)
  have htag : m'.word (offset.toNat + 16) = m.word (offset.toNat + 16) :=
    word_congr fun k hk => by simpa [Nat.add_assoc] using h (16 + k) (by omega)
  rw [header, header, hsize, hnext, htag]

end Memory

end ArenaHeap
