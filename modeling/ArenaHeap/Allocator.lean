import ArenaHeap.BlockSpace.Edit
import ArenaHeap.BlockSpace.Lookup
import ArenaHeap.BlockSpace.Usage
import ArenaHeap.Token

/-!
# Allocators

An allocator claims a single arena from its backing store and hands out blocks of it, first fit.
An operation that may change the allocator answers with the allocator after it, also when it fails.

* `init`, `deinit` : claim the arena and give it back, and so do `deinitUnchecked` and `drop`;
* `acquire`, `release`, `resize` : the life of a block, by tokens;
* `recover` : the token of a block, from an address;
* `usage` : the occupation of the arena;
* `read`, `write` : the bytes at an address, as the holder of a token sees them.
-/

namespace ArenaHeap

/-- A backing store, and the block space of the arena that was claimed from it. -/
structure Allocator (g : Geometry) where
  store : BackingStore
  space : Option (BlockSpace g) := none

namespace Allocator

variable {g : Geometry}

/-- Whether there is an arena. -/
def isInitialized (a : Allocator g) : Bool := a.space.isSome

/-- The size of the arena, or 0 without one. -/
def capacity (a : Allocator g) : UInt64 := (a.space.map BlockSpace.capacity).getD 0

/-! ## The arena -/

/-- Claims an arena of `capacity` bytes, less what does not fill a grain. -/
def init (a : Allocator g) (capacity : UInt64) : Except Fault Unit × Allocator g :=
  if a.isInitialized then (.error .alreadyInitialized, a)
  else if g.arenaSize capacity < g.minimumCapacity then
    (.error (.invalidCapacity capacity g.minimumCapacity), a)
  else match Arena.claim a.store (g.arenaSize capacity) g.granularity with
    | (none, store) => (.error (.backingStoreExhausted capacity), { a with store })
    | (some arena, store) => (.ok (), ⟨store, some (.fresh g arena)⟩)

/-- Gives the arena back, and with it every block. -/
def deinit (a : Allocator g) : Allocator g :=
  match a.space with
  | none => a
  | some space => ⟨space.arena.release a.store, none⟩

/-- Gives the arena back while others may still refer to the allocator. -/
def deinitUnchecked (a : Allocator g) : Allocator g := a.deinit

/-- Gives the arena back as the allocator goes out of scope: the store is all that is left. -/
def drop (a : Allocator g) : BackingStore := a.deinit.store

/-! ## Blocks -/

/-- The token of the block at an offset. -/
def tokenAt (space : BlockSpace g) (offset : UInt64) : Token :=
  ⟨space.address offset, (space.block offset).size⟩

/-- Hands out a block with at least `size` usable bytes. -/
def acquire (a : Allocator g) (size : UInt64) : Except Fault Token × Allocator g :=
  match a.space with
  | none => (.error .uninitialized, a)
  | some space =>
    match g.alignedSize size space.capacity with
    | .error fault => (.error fault, a)
    | .ok aligned =>
      match space.firstFit aligned with
      | none => (.error (.exhausted size), a)
      | some (offset, space) => (.ok (tokenAt space offset), { a with space })

/-- Takes a block back. -/
def release (a : Allocator g) (token : Token) : Except Fault Unit × Allocator g :=
  match a.space with
  | none => (.error .uninitialized, a)
  | some space =>
    match space.lookupByTag token.address with
    | .error fault => (.error fault, a)
    | .ok offset => (.ok (), { a with space := some (space.reclaim offset) })

/-- Moves the bytes of `token`, whose block is at `offset`, to a block of `aligned` bytes. -/
def move (space : BlockSpace g) (token : Token) (offset size aligned : UInt64) :
    Option (Token × BlockSpace g) :=
  match space.firstFit aligned with
  | none => none
  | some (target, space) =>
    let arena := space.arena
    let memory := arena.memory.copy (arena.position token.address)
      (arena.position (space.address target)) (min token.size size).toNat
    let space := { space with arena.memory := memory }.reclaim offset
    some (tokenAt space target, space)

/-- Lets a block have at least `size` usable bytes, where it is if possible. Without a token a block
is acquired, and with a size of 0 the block is released. -/
def resize (a : Allocator g) (token? : Option Token) (size : UInt64) :
    Except ResizeFault (Option Token) × Allocator g :=
  match token? with
  | none =>
    match a.acquire size with
    | (.ok token, a) => (.ok (some token), a)
    | (.error fault, a) => (.error ⟨fault, none⟩, a)
  | some token =>
    if size = 0 then
      match a.release token with
      | (.ok (), a) => (.ok none, a)
      | (.error fault, a) => (.error ⟨fault, none⟩, a)
    else match a.space with
      | none => (.error ⟨.uninitialized, token⟩, a)
      | some space =>
        match space.lookupByTag token.address with
        | .error fault => (.error ⟨fault, token⟩, a)
        | .ok offset =>
          match g.alignedSize size space.capacity with
          | .error fault => (.error ⟨fault, token⟩, a)
          | .ok aligned =>
            match space.extend offset aligned with
            | some (usable, space) => (.ok (some ⟨token.address, usable⟩), { a with space })
            | none =>
              match move space token offset size aligned with
              | none => (.error ⟨.exhausted size, token⟩, a)
              | some (moved, space) => (.ok (some moved), { a with space })

/-- The token of the block that was handed out at an address, whatever the address. -/
def recover (a : Allocator g) (address : UInt64) : Except Fault Token :=
  match a.space with
  | none => .error .uninitialized
  | some space =>
    match space.lookupByWalk address with
    | .error fault => .error fault
    | .ok offset => .ok ⟨address, (space.block offset).size⟩

/-- The occupation of the arena. -/
def usage (a : Allocator g) : Except Fault Usage :=
  match a.space with
  | none => .error .uninitialized
  | some space => .ok space.usage

/-! ## Bytes -/

/-- The `n` bytes from an address on. -/
def read (a : Allocator g) (address : UInt64) (n : Nat) : List UInt8 :=
  match a.space with
  | none => []
  | some space => space.arena.read address n

/-- The allocator with `bytes` written from an address on. -/
def write (a : Allocator g) (address : UInt64) (bytes : List UInt8) : Allocator g :=
  match a.space with
  | none => a
  | some space => { a with space := some { space with arena := space.arena.write address bytes } }

/-- Bytes that were written are read back. -/
theorem read_write (a : Allocator g) (h : a.isInitialized) (address : UInt64)
    (bytes : List UInt8) : (a.write address bytes).read address bytes.length = bytes := by
  obtain ⟨space, hspace⟩ := Option.isSome_iff_exists.mp h
  simp only [write, read, hspace]
  exact Arena.read_write _ _ _

end Allocator

end ArenaHeap
