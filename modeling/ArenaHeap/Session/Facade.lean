import ArenaHeap.Facade
import ArenaHeap.Session.Step

/-!
# Sessions with raw addresses

The pointers that a facade hands out are kept in numbered slots, with the bytes that their holder
may use and has written.

* `Pointer` : an address in a slot, or none;
* `FacadeStep`, `FacadeOutcome` : what can be asked, and what it brings;
* `FacadeSession` : the facade and the slots; `FacadeSession.step`, `FacadeSession.run`.
-/

namespace ArenaHeap

/-- An address, the bytes that its holder may use, and those that it has written. -/
structure Pointer where
  address : Option UInt64 := none
  usable : Nat := 0
  defined : Nat := 0

namespace Pointer

/-- A pointer whose bytes are no longer known. -/
def stale (p : Pointer) : Pointer := ⟨p.address, 0, 0⟩

/-- The address some bytes further on; no address stays none. -/
def shifted (p : Pointer) (delta : Int) : Option UInt64 := p.address.map (· + UInt64.ofInt delta)

end Pointer

/-- What can be asked of a facade. A `delta` is added to the pointer of a slot. -/
inductive FacadeStep where
  | init (capacity : UInt64)
  | deinit
  | allocate (slot : Int) (size : UInt64)
  | resize (slot : Int) (delta : Int) (size : UInt64) (target : Int)
  | free (slot : Int) (delta : Int)
  | fill (slot : Int) (length : UInt64) (seed : Int)
  | read (slot : Int) (length : UInt64)
  /-- A step of no known name. -/
  | unknown

/-- What a step brings. -/
inductive FacadeOutcome where
  | status (status : Facade.Status)
  | nothing
  | pointer (distance : Option Int)
  | count (n : Nat)
  | bytes (bytes : List UInt8)
  | unknown

/-- The answer to a step: its outcome, and the occupation of the arena afterwards. -/
structure FacadeAnswer where
  outcome : FacadeOutcome
  capacity : UInt64
  allocatedBlocks : Option UInt64

/-- A facade at work. -/
structure FacadeSession where
  facade : Facade
  slots : Std.TreeMap Int Pointer := ∅

namespace FacadeSession

/-- The start of the arenas. -/
def base : UInt64 := UInt64.ofNat (1 <<< 49)

/-- A session over mapped pages. -/
def start : FacadeSession := { facade := ⟨(Provider.mapped none).store base, none⟩ }

/-- The pointer in a slot. -/
def pointer (s : FacadeSession) (slot : Int) : Pointer := (s.slots[slot]?).getD {}

/-- The session with another pointer in a slot. -/
def setPointer (s : FacadeSession) (slot : Int) (p : Pointer) : FacadeSession :=
  { s with slots := s.slots.insert slot p }

/-- An address as its distance from the start of the arena. -/
def tell (address : Option UInt64) : FacadeOutcome :=
  .pointer (address.map fun address => (address - base).toInt64.toInt)

/-- What a step does. -/
def perform (s : FacadeSession) : FacadeStep → FacadeOutcome × FacadeSession
  | .init capacity =>
    let (status, facade) := Facade.init s.facade capacity
    (.status status, { s with facade })
  | .deinit => (.nothing, ⟨Facade.deinit s.facade, ∅⟩)
  | .allocate slot size =>
    let (address, facade) := Facade.allocate s.facade size
    (tell address, { s with facade }.setPointer slot ⟨address, size.toNat, 0⟩)
  | .resize slot delta size target =>
    let p := s.pointer slot
    let (address, facade) := Facade.resize s.facade (p.shifted delta) size
    let s := { s with facade }
    match address with
    | some _ =>
      (tell address,
        (s.setPointer slot p.stale).setPointer target
          ⟨address, size.toNat, min p.defined size.toNat⟩)
    | none =>
      (tell none, if size = 0 ∧ delta = 0 then s.setPointer slot p.stale else s)
  | .free slot delta =>
    let p := s.pointer slot
    let s := { s with facade := Facade.free s.facade (p.shifted delta) }
    (.nothing, if delta = 0 then s.setPointer slot p.stale else s)
  | .fill slot length seed =>
    let p := s.pointer slot
    match p.address with
    | none => (.count 0, s)
    | some address =>
      let n := min length.toNat p.usable
      (.count n,
        { s with facade := Allocator.write s.facade address (ramp n seed) }.setPointer slot
          { p with defined := max p.defined n })
  | .read slot length =>
    let p := s.pointer slot
    match p.address with
    | none => (.bytes [], s)
    | some address =>
      (.bytes (Allocator.read s.facade address (min length.toNat p.defined)), s)
  | .unknown => (.unknown, s)

/-- One step of a session. -/
def step (s : FacadeSession) (step : FacadeStep) : FacadeAnswer × FacadeSession :=
  let (outcome, s) := s.perform step
  (⟨outcome, Allocator.capacity s.facade, Facade.allocatedBlocks s.facade⟩, s)

/-- The answers to a script. -/
def run (s : FacadeSession) : List FacadeStep → List FacadeAnswer
  | [] => []
  | first :: rest =>
    let (answer, s) := s.step first
    answer :: s.run rest

end FacadeSession

end ArenaHeap
