import ArenaHeap.BackingStore
import ArenaHeap.Memory

/-!
# Arenas

An arena is the one range of addresses that an allocator holds, with the bytes behind it.

* `Arena.claim` : asks a backing store for one;
* `Arena.offsetOf?`, `Arena.addressOf` : between addresses and offsets from the start;
* `Arena.position` : the cell of the memory that an address names;
* `Arena.read`, `Arena.write` : the bytes at an address (`read_write`).
-/

namespace ArenaHeap

/-- A range of addresses from `base` on, and its bytes. -/
structure Arena where
  base : UInt64
  layout : Layout
  memory : Memory

namespace Arena

/-- The number of bytes of the arena. -/
def size (a : Arena) : UInt64 := a.layout.size

/-- Asks `store` for `size` bytes. A layout that is too large is refused without asking. -/
def claim (store : BackingStore) (size : UInt64) (alignment : PowerOfTwo) :
    Option Arena × BackingStore :=
  match Layout.of? size alignment with
  | none => (none, store)
  | some layout =>
    match store.claim layout with
    | (none, store) => (none, store)
    | (some grant, store) => (some ⟨grant.base, layout, .blank grant.contents⟩, store)

/-- Gives the arena back to `store`. -/
def release (a : Arena) (store : BackingStore) : BackingStore := store.release a.base a.layout

/-- The offset of an address from the start of the arena, if it lies in the arena. -/
def offsetOf? (a : Arena) (address : UInt64) : Option UInt64 :=
  if a.base ≤ address ∧ address - a.base < a.size then some (address - a.base) else none

/-- The address at an offset. -/
def addressOf (a : Arena) (offset : UInt64) : UInt64 := a.base + offset

/-- The cell of the memory that an address names. -/
def position (a : Arena) (address : UInt64) : Nat := (address - a.base).toNat

/-- The `n` bytes from an address on. -/
def read (a : Arena) (address : UInt64) (n : Nat) : List UInt8 :=
  a.memory.bytes (a.position address) n

/-- The arena with `bytes` written from an address on. -/
def write (a : Arena) (address : UInt64) (bytes : List UInt8) : Arena :=
  { a with memory := a.memory.setBytes (a.position address) bytes }

/-- Bytes that were written are read back. -/
theorem read_write (a : Arena) (address : UInt64) (bytes : List UInt8) :
    (a.write address bytes).read address bytes.length = bytes :=
  a.memory.bytes_setBytes (a.position address) bytes

end Arena

end ArenaHeap
