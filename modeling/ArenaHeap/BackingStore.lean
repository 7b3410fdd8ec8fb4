import ArenaHeap.PowerOfTwo

/-!
# Where arenas come from

A backing store answers requests for arenas, and may refuse any of them.

* `Layout` : the size and alignment of an arena, never too large for signed distances;
* `BackingStore` : the answers that requests will get, and the history of what changed hands;
* `BackingStore.claim`, `BackingStore.release` : the two transfers; `claims`, `releases` count them;
* `Provider` : the three kinds of store that zero what they grant, and what each of them accepts;
* `Mapping` : the lengths in whole pages that a mapped arena takes, and the store that maps pages.
-/

namespace ArenaHeap

/-! ## Layouts -/

/-- The size and alignment of an arena. Offsets in it are distances that a signed word can hold. -/
structure Layout where
  size : UInt64
  alignment : PowerOfTwo
  fits : size.toNat + alignment.value.toNat ≤ UInt64.size / 2
deriving DecidableEq

/-- The layout of `size` bytes, or nothing if `size` padded to the alignment is no signed word. -/
def Layout.of? (size : UInt64) (alignment : PowerOfTwo) : Option Layout :=
  if fits : size.toNat + alignment.value.toNat ≤ UInt64.size / 2 then some ⟨size, alignment, fits⟩ else none

/-! ## Stores -/

/-- What a store hands over: where the arena starts, and the bytes that lie in it. -/
structure Grant where
  base : UInt64
  contents : Nat → UInt8

/-- An arena that changed hands. -/
inductive Transfer where
  | claimed (base : UInt64) (layout : Layout)
  | released (base : UInt64) (layout : Layout)
deriving DecidableEq

/-- Whether a transfer went to the allocator. -/
def Transfer.isClaim : Transfer → Bool
  | claimed .. => true
  | released .. => false

/-- A store: how it answers its `n`-th request, the requests so far, and the transfers so far with
the latest first. -/
structure BackingStore where
  answer : Nat → Layout → Option Grant
  requests : Nat := 0
  history : List Transfer := []

namespace BackingStore

/-- The number of arenas handed out. -/
def claims (s : BackingStore) : Nat := s.history.countP Transfer.isClaim

/-- The number of arenas taken back. -/
def releases (s : BackingStore) : Nat := s.history.countP fun t => !t.isClaim

/-- Asks for an arena. A refusal transfers nothing. -/
def claim (s : BackingStore) (layout : Layout) : Option Grant × BackingStore :=
  match s.answer s.requests layout with
  | none => (none, { s with requests := s.requests + 1 })
  | some grant =>
    (some grant,
      { s with requests := s.requests + 1, history := .claimed grant.base layout :: s.history })

/-- Takes an arena back. -/
def release (s : BackingStore) (base : UInt64) (layout : Layout) : BackingStore :=
  { s with history := .released base layout :: s.history }

/-- A store that grants zeroed arenas at `base` for the layouts it accepts. -/
def zeroed (accepts : Layout → Bool) (base : UInt64) : BackingStore where
  answer _ layout := if accepts layout then some ⟨base, fun _ => 0⟩ else none

end BackingStore

/-! ## Mapped pages -/

namespace Mapping

/-- The pages of a machine that does not tell how large they are. -/
def fallback : PowerOfTwo := ⟨4096, by decide⟩

/-- The pages of a machine that gives the answer when it is asked for their size. -/
def pageSize (answer : Int64) : PowerOfTwo :=
  if answer < 0 then fallback else (PowerOfTwo.ofWord? answer.toUInt64).getD fallback

/-- The length mapped for an arena, or nothing if it cannot be aligned or counted in pages. -/
def mappedLength? (page : PowerOfTwo) (layout : Layout) : Option UInt64 :=
  if page.value < layout.alignment.value then none else page.roundUp? layout.size

/-- The length unmapped when the arena is taken back. -/
def unmappedLength (page : PowerOfTwo) (layout : Layout) : UInt64 := page.roundUp layout.size

/-- The store that maps pages. Its `n`-th request, if it comes to `length` bytes in pages, is answered
as the machine answers `map n length`. -/
def store (page : PowerOfTwo) (map : Nat → UInt64 → Option Grant) : BackingStore where
  answer n layout := (mappedLength? page layout).bind (map n)

end Mapping

/-! ## Providers -/

/-- The kinds of store that zero what they grant; a `limit` refuses larger arenas. -/
inductive Provider where
  /-- A static array of `limit` bytes. -/
  | static (limit : UInt64)
  /-- The heap of the process. -/
  | heap (limit : Option UInt64)
  /-- Anonymous mapped pages of 4096 bytes. -/
  | mapped (limit : Option UInt64)
deriving DecidableEq

namespace Provider

/-- The alignment of static arrays. -/
def staticAlignment : UInt64 := 8192

/-- The size from which the address space of a process has no room. -/
def addressSpace : UInt64 := 281474976710656

/-- Whether `size` is within an optional limit. -/
def within (limit : Option UInt64) (size : UInt64) : Bool := limit.all (size ≤ ·)

/-- Whether a provider grants a layout. -/
def accepts : Provider → Layout → Bool
  | static limit, layout => layout.alignment.value ≤ staticAlignment && layout.size ≤ limit
  | heap limit, layout => layout.size < addressSpace && within limit layout.size
  | mapped limit, layout =>
    layout.size < addressSpace && within limit layout.size &&
      (Mapping.mappedLength? (Mapping.pageSize 4096) layout).isSome

/-- A store of this kind that grants its arenas at `base`. -/
def store (p : Provider) (base : UInt64) : BackingStore := .zeroed p.accepts base

end Provider

end ArenaHeap
