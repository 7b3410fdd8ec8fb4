import ArenaHeap.Allocator

/-!
# Raw addresses instead of tokens

One allocator of the standard geometry behind a handful of calls that take and give addresses. An
address that names no live block is found out, and changes nothing.

* `Facade.init`, `Facade.deinit` : the arena;
* `Facade.allocate`, `Facade.resize`, `Facade.free` : blocks, by the address of their first byte;
* `Facade.allocatedBlocks` : how many blocks are out.
-/

namespace ArenaHeap

/-- The allocator behind raw addresses. -/
abbrev Facade := Allocator Geometry.standard

namespace Facade

/-- What became of a request for an arena. -/
inductive Status where
  | ready
  /-- The request makes no sense now or at all. -/
  | refused
  /-- There is no memory to run with. -/
  | fatal
deriving DecidableEq, Repr

/-- Claims an arena. -/
def init (f : Facade) (capacity : UInt64) : Status × Facade :=
  match Allocator.init f capacity with
  | (.ok (), f) => (.ready, f)
  | (.error (.backingStoreExhausted _), f) => (.fatal, f)
  | (.error _, f) => (.refused, f)

/-- Gives the arena back. -/
def deinit (f : Facade) : Facade := Allocator.deinitUnchecked f

/-- Hands out a block of at least `size` bytes. -/
def allocate (f : Facade) (size : UInt64) : Option UInt64 × Facade :=
  match Allocator.acquire f size with
  | (.ok token, f) => (some token.address, f)
  | (.error _, f) => (none, f)

/-- Lets the block at an address have at least `size` bytes. The answer is its address afterwards;
without one, the block is as it was, or released if a size of 0 was asked for. -/
def resize (f : Facade) (address? : Option UInt64) (size : UInt64) : Option UInt64 × Facade :=
  match address?.mapM (Allocator.recover f) with
  | .error _ => (none, f)
  | .ok token? =>
    match Allocator.resize f token? size with
    | (.ok moved?, f) => (moved?.map Token.address, f)
    | (.error _, f) => (none, f)

/-- Takes the block at an address back. -/
def free (f : Facade) (address? : Option UInt64) : Facade :=
  match address? with
  | none => f
  | some address =>
    match Allocator.recover f address with
    | .error _ => f
    | .ok token => (Allocator.release f token).2

/-- The number of blocks that are handed out, if there is an arena. -/
def allocatedBlocks (f : Facade) : Option UInt64 :=
  match Allocator.usage f with
  | .ok usage => some usage.allocatedBlocks
  | .error _ => none

end Facade

end ArenaHeap
