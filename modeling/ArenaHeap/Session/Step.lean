import ArenaHeap.NodeList.Text

/-!
# Steps and answers of a session

A session works numbered allocators and keeps what they hand out in numbered slots: tokens, lists
and references apart.

* `ramp` : the bytes that fill a block, each of which tells its place;
* `AllocatorAction`, `TokenAction`, `ListAction`, `Action` : what can be asked of a session;
* `Step` : an action, and the numbers that come with it whether it needs them or not;
* `Report` : a fault, with the place it blames as a distance from the start of an arena;
* `Outcome` : what an action brings; `Refusal` : why a step is not looked at;
* `Answer` : an outcome, and what is told along with it.
-/

namespace ArenaHeap

/-- The number of a slot. -/
abbrev Slot := Int

/-- `n` bytes that count up from `seed` and start over behind 255. -/
def ramp (n : Nat) (seed : Int) : List UInt8 :=
  (List.range n).map fun i : Nat => UInt8.ofNat ((seed + i) % 256).toNat

/-! ## Steps -/

/-- What can be asked of an allocator. -/
inductive AllocatorAction where
  | init (capacity : UInt64)
  | deinit
  | info
  | usage
  | acquire (token : Slot) (size : UInt64)
  | release (token : Slot)
  | resize (token : Slot) (size : UInt64)
  /-- Recovers the token at a distance from the start of the arena of the origin of the step. -/
  | recover (token : Slot) (distance : Int)
  /-- Recovers a second token for the block of a token. -/
  | duplicate (token target : Slot)
  /-- Tries to recover a token on every grain of the arena. -/
  | survey
  | listNew (list : Slot)

/-- What can be asked of the token in a slot. -/
inductive TokenAction where
  | forget
  | describe
  | fill (length : UInt64) (seed : Int)
  | write (place : UInt64) (words : List UInt64)
  | read (length : UInt64)

/-- What can be asked of the list in a slot. -/
inductive ListAction where
  | drop
  | insertFront (target : Slot)
  | insertAfter (reference : Option Slot) (target : Slot)
  | insertBefore (reference : Option Slot) (target : Slot)
  | delete
  | clear
  | search (target : Slot)
  | isEmpty
  | count
  | values
  | display
  | debug
  | range (start stop : Option Slot)
  /-- An action of no known name. -/
  | unknown

/-- What can be asked of a session. -/
inductive Action where
  | allocator (action : AllocatorAction)
  | token (slot : Slot) (action : TokenAction)
  /-- An action on a list comes with a value, also if it makes nothing of it. -/
  | list (slot : Slot) (value : Int) (action : ListAction)
  | reference (slot : Slot)
  | same (slot other : Slot)

/-- An action, the number of the allocator that it is about, and that of the allocator from whose
arena distances are counted. Allocators are numbered from 0. -/
structure Step where
  allocator : Nat
  origin : Nat
  action : Action

/-! ## Answers -/

/-- A fault, and how far the address it blames is from the start of an arena. -/
structure Report where
  fault : Fault
  distance : Option Int

/-- The report of a fault that blames a place at the given distance, if it blames a place. -/
def Fault.reportAt (distance : Int) (fault : Fault) : Report :=
  ⟨fault, fault.address?.map fun _ => distance⟩

/-- The report of a fault, by distances from `base`. -/
def Fault.report (base : UInt64) (fault : Fault) : Report :=
  ⟨fault, fault.address?.map fun address => (address - base).toInt64.toInt⟩

/-- What a survey finds on a grain: a block of some size that was handed out, or a free block. -/
structure Finding where
  distance : Int
  size : Option UInt64

/-- What an action brings. -/
inductive Outcome where
  | done
  | nothing
  | noToken
  | fault (report : Report)
  /-- A resize that was refused, and whether the token is handed back. -/
  | resizeFault (report : Report) (message : String) (returned : Bool)
  | listFault (fault : ListFault)
  | info (initialized : Bool) (capacity : UInt64) (claims releases : Nat)
  | accounted (bytes : UInt64)
  | token (distance : Int) (size : UInt64)
  | described (distance : Int) (size : UInt64) (text : String)
  | findings (found : List Finding)
  | distance (distance : Int)
  | count (n : Nat)
  | bytes (bytes : List UInt8)
  | node (value : Int32) (stamp distance : Int)
  | named (value : Int32) (stamp : Int)
  | flag (flag : Bool)
  | values (values : List Int32)
  | text (text : String)
  | range (values : List Int32) (text : String)

/-- Why a step is not looked at. -/
inductive Refusal where
  /-- There is no allocator of one of its numbers. -/
  | noAllocator
  /-- There is no list in its slot. -/
  | noList
  /-- Its value is no signed 32-bit number. -/
  | valueOutOfRange
  | unknownAction

/-- The answer to a step: its outcome, for some steps also the text of the list, and for some the
occupation of the allocator, if it has an arena. -/
inductive Answer where
  | refused (cause : Refusal)
  | outcome (outcome : Outcome) (list : Option String := none)
      (usage : Option (Option Usage) := none)

end ArenaHeap
