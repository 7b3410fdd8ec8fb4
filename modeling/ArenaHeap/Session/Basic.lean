import ArenaHeap.Session.Step

/-!
# The state of a session

* `Held` : a token in a slot; its holder knows the bytes up to `defined`;
* `Hosted` : a list in a slot, and the allocator of its nodes;
* `Session` : the allocators and the slots;
* `Session.base` : where the arenas of an allocator start: far apart, so that they never overlap;
* `Session.addressFrom` : the address at a distance from the start of an arena;
* `Session.readToken`, `Session.writeToken` : the bytes of a token, which outlive its arena.
-/

namespace ArenaHeap

/-- Numbered places, some of them empty. -/
abbrev Slots (α : Type) := Std.TreeMap Slot α

/-- A token, the number of the allocator it came from, and how many bytes its holder wrote. -/
structure Held where
  token : Token
  owner : Nat
  defined : Nat := 0

/-- A list, and the number of the allocator of its nodes. -/
structure Hosted where
  list : NodeList
  host : Nat

/-- Allocators at work. The first stamp that an answer told is the zero of all later ones. -/
structure Session (g : Geometry) where
  allocators : List (Allocator g)
  /-- The arena that each allocator gave back last. Until the next one is claimed, the holders of
  its tokens still see its bytes. -/
  retired : Std.TreeMap Nat Arena := ∅
  stamp : UInt64 := 0
  unreleased : List Fault := []
  firstStamp : Option UInt64 := none
  tokens : Slots Held := ∅
  lists : Slots Hosted := ∅
  references : Slots Reference := ∅

namespace Session

variable {g : Geometry}

/-- The start of the arenas of allocator `k`. -/
def base (k : Nat) : UInt64 := UInt64.ofNat ((k + 1) <<< 49)

/-- A session of fresh allocators over the given providers. -/
def start (g : Geometry) (providers : List Provider) : Session g where
  allocators := providers.mapIdx fun k provider => ⟨provider.store (base k), none⟩

/-- How far an address is from the start of the arenas of allocator `k`. -/
def distance (k : Nat) (address : UInt64) : Int := (address - base k).toInt64.toInt

/-- The address at a distance from the start of the arenas of allocator `origin`, as allocator `k`
is to judge it. The arenas of two allocators lie at no known distance from each other, so none leads
from the arena of another allocator into that of `k`. -/
def addressFrom (origin k : Nat) (distance : Int) : UInt64 :=
  if origin = k then base k + UInt64.ofInt distance else 0

/-- The occupation of allocator `k`, if it has an arena. -/
def usageOf (s : Session g) (k : Nat) : Option Usage :=
  s.allocators[k]?.bind fun a => a.usage.toOption

/-- The session with another allocator `k`. -/
def setAllocator (s : Session g) (k : Nat) (a : Allocator g) : Session g :=
  { s with allocators := s.allocators.set k a }

/-- Allocator `a` as a host of nodes. -/
def hostOf (s : Session g) (a : Allocator g) : Host g := ⟨a, s.stamp, s.unreleased⟩

/-- The session with allocator `k` as the host left it. -/
def setHost (s : Session g) (k : Nat) (h : Host g) : Session g :=
  { s.setAllocator k h.allocator with stamp := h.stamp, unreleased := h.unreleased }

/-- The session without the list in a slot, whose nodes are given back. -/
def dropList (s : Session g) (slot : Slot) : Session g :=
  match s.lists[slot]? with
  | none => s
  | some hosted =>
    let s := { s with lists := s.lists.erase slot }
    match s.allocators[hosted.host]? with
    | none => s
    | some a => s.setHost hosted.host (hosted.list.clear (s.hostOf a)).2

/-- The session without the lists on allocator `k`. -/
def dropListsOf (s : Session g) (k : Nat) : Session g :=
  ((s.lists.toList.filter (·.2.host == k)).map Prod.fst).foldl dropList s

/-- The session after allocator `k` gave its arena back, if it had one. -/
def retire (s : Session g) (k : Nat) : Session g :=
  match s.allocators[k]? with
  | none => s
  | some a =>
    match a.space with
    | none => s
    | some space =>
      { s.setAllocator k a.deinit with retired := s.retired.insert k space.arena }

/-- The session without the tokens of allocator `k`. -/
def forgetTokensOf (s : Session g) (k : Nat) : Session g :=
  { s with tokens := s.tokens.filter fun _ held => held.owner != k }

/-- A stamp as answers tell it, counted from the first that an answer told. -/
def tellStamp (s : Session g) (stamp : UInt64) : Int × Session g :=
  let first := s.firstStamp.getD stamp
  ((stamp.toNat : Int) - first.toNat, { s with firstStamp := some first })

/-- The session with `bytes` written at byte `place` of a token's block. -/
def writeToken (s : Session g) (held : Held) (place : Nat) (bytes : List UInt8) : Session g :=
  let address := held.token.address + UInt64.ofNat place
  match s.allocators[held.owner]? with
  | none => s
  | some a =>
    if a.isInitialized then s.setAllocator held.owner (a.write address bytes)
    else { s with retired := s.retired.modify held.owner (Arena.write · address bytes) }

/-- The first `n` bytes of a token's block. -/
def readToken (s : Session g) (held : Held) (n : Nat) : List UInt8 :=
  match s.allocators[held.owner]? with
  | none => []
  | some a =>
    if a.isInitialized then a.read held.token.address n
    else match s.retired[held.owner]? with
      | none => []
      | some arena => arena.read held.token.address n

/-- The numbers of arenas claimed and given back by each allocator, after everything was dropped. -/
def finish (s : Session g) : List (Nat × Nat) :=
  let s := (s.lists.toList.map Prod.fst).foldl dropList s
  s.allocators.map fun a => (a.drop.claims, a.drop.releases)

end Session

end ArenaHeap
