/-!
# Faults of an allocator

* `Fault` : why an allocator refused a request; `Fault.address?` is the address it blames, if any;
* `FaultKind` : the reaction that a fault calls for;
* `Fault.message` : the one place where the wording lives.
-/

namespace ArenaHeap

/-- What the caller can do about a fault. -/
inductive FaultKind where
  /-- The arena could not be obtained. -/
  | backingStoreExhausted
  /-- No block is large enough: asking for less, or later, may succeed. -/
  | allocationExhausted
  /-- An argument was refused. -/
  | invalidArgument
  /-- A search met nothing. -/
  | notFound
  /-- The caller broke a rule, and nothing was touched. -/
  | contractViolation
deriving DecidableEq, Repr

/-- Why an allocator refused a request. -/
inductive Fault where
  /-- The backing store granted no arena of `capacity` bytes. -/
  | backingStoreExhausted (capacity : UInt64)
  /-- An arena of `capacity` bytes holds no block at all; `minimum` bytes hold one. -/
  | invalidCapacity (capacity minimum : UInt64)
  /-- Nothing was asked for. -/
  | zeroSize
  /-- More was asked for than the whole arena has. -/
  | tooLarge (requested capacity : UInt64)
  /-- No free block has `requested` bytes. -/
  | exhausted (requested : UInt64)
  /-- The allocator has an arena already. -/
  | alreadyInitialized
  /-- The allocator has no arena. -/
  | uninitialized
  /-- No block starts at the address. -/
  | foreignPointer (address : UInt64)
  /-- The block at the address is free. -/
  | doubleFree (address : UInt64)
deriving DecidableEq, Repr

namespace Fault

/-- The reaction that a fault calls for. -/
def kind : Fault → FaultKind
  | backingStoreExhausted _ => .backingStoreExhausted
  | tooLarge .. | exhausted _ => .allocationExhausted
  | zeroSize | invalidCapacity .. => .invalidArgument
  | alreadyInitialized | uninitialized | foreignPointer _ | doubleFree _ => .contractViolation

/-- The address that a fault blames. -/
def address? : Fault → Option UInt64
  | foreignPointer address | doubleFree address => some address
  | _ => none

/-- A count in decimal digits. -/
def decimal (n : UInt64) : String := String.ofList (Nat.toDigits 10 n.toNat)

/-- An address in hexadecimal digits. -/
def hexadecimal (n : UInt64) : String := "0x" ++ String.ofList (Nat.toDigits 16 n.toNat)

/-- The text of a fault. -/
def message : Fault → String
  | backingStoreExhausted capacity =>
    "backing store cannot provide an arena of " ++ decimal capacity ++ " bytes"
  | invalidCapacity capacity minimum =>
    "capacity " ++ decimal capacity ++ " is below the minimum of " ++ decimal minimum ++ " bytes"
  | zeroSize => "zero-sized allocation"
  | tooLarge requested capacity =>
    "request of " ++ decimal requested ++ " bytes exceeds the arena capacity of "
      ++ decimal capacity ++ " bytes"
  | exhausted requested => "no free block can hold " ++ decimal requested ++ " bytes"
  | alreadyInitialized => "allocator is already initialized"
  | uninitialized => "allocator is not initialized"
  | foreignPointer address =>
    "address " ++ hexadecimal address ++ " was not handed out by this allocator"
  | doubleFree address => "block at " ++ hexadecimal address ++ " is already free"

end Fault

end ArenaHeap
