import ArenaHeap.BlockSpace.Edit
import ArenaHeap.BlockSpace.Lookup
import ArenaHeap.BlockSpace.Usage
import ArenaHeap.Proofs.Checked.Basic
import ArenaHeap.Proofs.Loans.Usage

/-!
# Block spaces by checked arithmetic

Here are the operations of a block space once more, sum by sum and difference by difference, with arithmetic that
refuses to exceed the capacity. They stop where it does.

* `BlockSpace.sum?`, `stop?`, `start?` : a sum within the capacity, and the ends of the usable bytes of a block;
* `handOut?`, `firstFit?`, `joinNext?`, `joinPrevious?`, `reclaim?`, `extend?`, `headerOffset?`, `lookupByTag?`,
  `lookupByWalk?`, `usage?`, `fresh?` : the operations;
* `BlockSpace.Encloses` : a block ends inside the arena, and so does what two of them are joined to;
* `handOut?_eq`, … : with blocks that are enclosed, no operation stops;
* `BlockSpace.Admits` : there is room for more blocks beside those that were counted; no block too many is counted
  (`Admits.foldlM`).
-/

namespace ArenaHeap

open Tiling

namespace BlockSpace

variable {g : Geometry}

/-! ## The operations -/

/-- The sum of two words, unless it exceeds the capacity. -/
def sum? (s : BlockSpace g) (a b : UInt64) : Option UInt64 := Word.sum? s.capacity a b

/-- The offset of the first usable byte of the block at an offset. -/
def start? (s : BlockSpace g) (offset : UInt64) : Option UInt64 := s.sum? offset g.headerSize

/-- The offset behind the last usable byte. -/
def stop? (s : BlockSpace g) (b : Block) : Option UInt64 := do
  let start ← s.start? b.offset
  s.sum? start b.size

/-- The address of the first usable byte of the block at an offset. -/
def address? (s : BlockSpace g) (offset : UInt64) : Option UInt64 := (s.start? offset).map s.arena.addressOf

/-- A fresh arena is a single free block. -/
def fresh? (g : Geometry) (arena : Arena) : Option (BlockSpace g) := do
  let size ← Word.difference? arena.size g.headerSize
  some ((BlockSpace.mk arena (some 0)).write ⟨0, .free size none⟩)

/-- Hands out `size` bytes at the front of the free block `b`. -/
def handOut? (s : BlockSpace g) (b : Block) (size : UInt64) : Option (BlockSpace g × Option UInt64) := do
  let surplus ← Word.difference? b.size size
  if g.splitThreshold ≤ surplus then
    let start ← s.start? b.offset
    let rest ← s.sum? start size
    let left ← Word.difference? surplus g.headerSize
    some ((s.write ⟨rest, .free left b.header.next?⟩).write ⟨b.offset, .allocated size⟩, some rest)
  else some (s.write ⟨b.offset, .allocated b.size⟩, b.header.next?)

/-- Hands out the first free block with `size` usable bytes. -/
def firstFit? (s : BlockSpace g) (size : UInt64) : Option (Option (UInt64 × BlockSpace g)) :=
  let (passed, rest) := s.freeChain.span fun b => b.size < size
  match rest with
  | [] => some none
  | b :: _ => do
    let (taken, replacement) ← s.handOut? b size
    some (some (b.offset, taken.redirect (passed.getLast?.map Block.offset) replacement))

/-- The free block `b`, merged with the free block behind it if that borders on it. -/
def joinNext? (s : BlockSpace g) (b : Block) : Option Block → Option Block
  | some next => do
    let stop ← s.stop? b
    if stop = next.offset then
      let more ← s.sum? g.headerSize next.size
      let size ← s.sum? b.size more
      some ⟨b.offset, .free size next.header.next?⟩
    else some b
  | none => some b

/-- The free block `b`, merged with the free block in front of it if that borders on it. -/
def joinPrevious? (s : BlockSpace g) (around : FreeAround) (b : Block) : Option (Block × Option Block) :=
  match around.previous with
  | some previous => do
    let stop ← s.stop? previous
    if stop = b.offset then
      let more ← s.sum? g.headerSize previous.size
      let size ← s.sum? b.size more
      some (⟨previous.offset, .free size b.header.next?⟩, around.before)
    else some (b, some previous)
  | none => some (b, none)

/-- Makes the block at `offset` free, and merges it with the free blocks that border on it. -/
def reclaim? (s : BlockSpace g) (offset : UInt64) : Option (BlockSpace g) := do
  let around := s.freeAround offset
  let alone : Block := ⟨offset, .free (s.block offset).size (around.next.map Block.offset)⟩
  let joined ← s.joinNext? alone around.next
  let (merged, previous) ← s.joinPrevious? around joined
  some ((s.write merged).redirect (previous.map Block.offset) (some merged.offset))

/-- Lets the block at `offset` have `size` usable bytes where it is. -/
def extend? (s : BlockSpace g) (offset size : UInt64) : Option (Option (UInt64 × BlockSpace g)) :=
  let block := s.block offset
  if size ≤ block.size then some (some (block.size, s))
  else do
    let stop ← s.stop? block
    if s.capacity ≤ stop then some none
    else
      let behind := s.block stop
      if behind.header.isFree then
        let more ← s.sum? block.size g.headerSize
        let total ← s.sum? more behind.size
        if total < size then some none
        else
          let (taken, replacement) ← s.handOut? ⟨offset, .free total behind.header.next?⟩ size
          let grown := taken.redirect ((s.freeAround offset).previous.map Block.offset) replacement
          some (some ((grown.block offset).size, grown))
      else some none

/-- Where the header in front of `address` would lie. -/
def headerOffset? (s : BlockSpace g) (address : UInt64) : Option (Except Fault UInt64) :=
  match s.arena.offsetOf? address with
  | none => some (.error (.foreignPointer address))
  | some user =>
    if user < g.headerSize then some (.error (.foreignPointer address))
    else do
      let offset ← Word.difference? user g.headerSize
      let rest ← g.granularity.rem? offset
      some (if rest ≠ 0 then .error (.foreignPointer address) else .ok offset)

/-- The offset of the block that was handed out at `address`, by the tag in front of it. -/
def lookupByTag? (s : BlockSpace g) (address : UInt64) : Option (Except Fault UInt64) := do
  match ← s.headerOffset? address with
  | .error fault => some (.error fault)
  | .ok offset =>
    let block := s.block offset
    if block.header.isAllocated then
      let stop ← s.stop? block
      some (if stop ≤ s.capacity then .ok offset
        else if block.header.isFree then .error (.doubleFree address) else .error (.foreignPointer address))
    else some (if block.header.isFree then .error (.doubleFree address) else .error (.foreignPointer address))

/-- At most `fuel` blocks, each right behind the one before. -/
def blocksFrom? (s : BlockSpace g) : Nat → UInt64 → Option (List Block)
  | 0, _ => some []
  | fuel + 1, cursor =>
    if s.capacity ≤ cursor then some []
    else do
      let stop ← s.stop? (s.block cursor)
      let behind ← s.blocksFrom? fuel stop
      some (s.block cursor :: behind)

/-- The offset of the block that was handed out at `address`, by a walk over the blocks. -/
def lookupByWalk? (s : BlockSpace g) (address : UInt64) : Option (Except Fault UInt64) := do
  match ← s.headerOffset? address with
  | .error fault => some (.error fault)
  | .ok offset =>
    let blocks ← s.blocksFrom? s.blockBound 0
    some (judge blocks address offset)

/-- The occupation with one more block. -/
def tally? (s : BlockSpace g) (u : Usage) (b : Block) : Option Usage := do
  let overhead ← s.sum? u.overhead g.headerSize
  if b.header.isFree then
    let freeBlocks ← s.sum? u.freeBlocks 1
    let freeBytes ← s.sum? u.freeBytes b.size
    some { u with freeBlocks, freeBytes, largestFree := max u.largestFree b.size, overhead }
  else
    let allocatedBlocks ← s.sum? u.allocatedBlocks 1
    let allocatedBytes ← s.sum? u.allocatedBytes b.size
    some { u with allocatedBlocks, allocatedBytes, overhead }

/-- The occupation of a space, block by block. -/
def usage? (s : BlockSpace g) : Option Usage := do
  let blocks ← s.blocksFrom? s.blockBound 0
  blocks.foldlM s.tally? { capacity := s.capacity }

/-- All that the blocks of an occupation cover. -/
def accounted? (s : BlockSpace g) (u : Usage) : Option UInt64 := do
  let usable ← s.sum? u.allocatedBytes u.freeBytes
  s.sum? usable u.overhead

/-! ## Blocks that are enclosed -/

variable {s : BlockSpace g} {b c : Block} {a d size offset address : UInt64}

/-- The block ends inside the arena. -/
def Encloses (s : BlockSpace g) (b : Block) : Prop :=
  b.offset.toNat + (g.front + b.size.toNat) ≤ s.capacity.toNat

theorem Encloses.congr (h : s.Encloses b) (hoffset : c.offset = b.offset) (hsize : c.size = b.size) :
    s.Encloses c := by
  unfold Encloses
  rw [hoffset, hsize]
  exact h

theorem sum?_eq (h : a.toNat + d.toNat ≤ s.capacity.toNat) : s.sum? a d = some (a + d) := Word.sum?_eq h

theorem start?_eq (h : s.Encloses b) : s.start? b.offset = some (b.start g) ∧
    (b.start g).toNat = b.offset.toNat + g.front := by
  have hstart : b.offset.toNat + g.headerSize.toNat ≤ s.capacity.toNat :=
    Nat.le_trans (Nat.add_le_add_left (Nat.le_add_right _ _) _) h
  exact ⟨sum?_eq hstart, Word.toNat_sum hstart⟩

theorem stop?_eq (h : s.Encloses b) : s.stop? b = some (b.stop g) ∧
    (b.stop g).toNat = b.offset.toNat + (g.front + b.size.toNat) := by
  obtain ⟨hsome, hstart⟩ := start?_eq h
  have hstop : (b.start g).toNat + b.size.toNat ≤ s.capacity.toNat := by
    rw [hstart, Nat.add_assoc]
    exact h
  have hnat : (b.stop g).toNat = (b.start g).toNat + b.size.toNat := Word.toNat_sum hstop
  unfold stop?
  simp only [hsome, Option.bind_eq_bind, Option.bind_some]
  exact ⟨sum?_eq hstop, by omega⟩

/-- Two blocks that border on each other are enclosed when they are joined, and their bytes fit in the arena. -/
theorem Encloses.absorb (hb : s.Encloses b) (hc : s.Encloses c) (hstop : b.stop g = c.offset) :
    s.Encloses (b.absorb g c) ∧ b.size.toNat + g.front + c.size.toNat ≤ s.capacity.toNat := by
  have hend := (stop?_eq hb).2
  rw [hstop] at hend
  unfold Encloses at hc
  have hfirst : b.size.toNat + g.headerSize.toNat ≤ s.capacity.toNat := by
    change b.size.toNat + g.front ≤ _
    omega
  have hmore : (b.size + g.headerSize).toNat = b.size.toNat + g.front := Word.toNat_sum hfirst
  have htotal : (b.size + g.headerSize).toNat + c.size.toNat ≤ s.capacity.toNat := by omega
  have hsize : (b.absorb g c).size.toNat = b.size.toNat + g.front + c.size.toNat := by
    rw [← hmore]
    exact Word.toNat_sum htotal
  refine ⟨?_, by omega⟩
  unfold Encloses
  rw [hsize]
  change b.offset.toNat + _ ≤ _
  omega

/-- The sum of a header and some bytes, and what other bytes make together with it. -/
theorem sums_behind (h : a.toNat + (g.front + d.toNat) ≤ s.capacity.toNat) :
    s.sum? g.headerSize d = some (g.headerSize + d) ∧ s.sum? a (g.headerSize + d) = some (a + (g.headerSize + d)) := by
  have hmore : g.headerSize.toNat + d.toNat ≤ s.capacity.toNat := Nat.le_trans (Nat.le_add_left _ _) h
  refine ⟨sum?_eq hmore, sum?_eq ?_⟩
  rw [Word.toNat_sum hmore]
  exact h

/-! ## No operation stops -/

section Exact

variable (hg : g.Exact)
include hg

theorem handOut?_eq (hb : s.Encloses b) (hle : size ≤ b.size) : s.handOut? b size = some (s.handOut b size) := by
  have hnat := UInt64.le_iff_toNat_le.mp hle
  obtain ⟨hstart, hstartNat⟩ := start?_eq hb
  unfold Encloses at hb
  unfold handOut? handOut
  simp only [Word.difference?_eq hle, Option.bind_eq_bind, Option.bind_some]
  split
  · rename_i hsplit
    have hrest : (b.start g).toNat + size.toNat ≤ s.capacity.toNat := by omega
    have hheader : g.headerSize ≤ b.size - size := UInt64.le_trans (Geometry.headerSize_le hg) hsplit
    simp only [hstart, sum?_eq hrest, Word.difference?_eq hheader, Option.bind_some]
    rfl
  · rfl

theorem firstFit?_eq (hchain : ∀ b ∈ s.freeChain, s.Encloses b) : s.firstFit? size = some (s.firstFit size) := by
  unfold firstFit? firstFit
  cases hspan : s.freeChain.span fun b => decide (b.size < size) with
  | mk passed rest =>
    cases rest with
    | nil => rfl
    | cons b rest =>
      rw [List.span_eq_takeWhile_dropWhile] at hspan
      have hdrop := (Prod.mk.inj hspan).2
      have hb : b ∈ s.freeChain := (List.dropWhile_suffix _).subset (hdrop ▸ List.mem_cons_self)
      have hnot := List.head?_dropWhile_not (fun b : Block => decide (b.size < size)) s.freeChain
      rw [hdrop] at hnot
      have hle : size ≤ b.size := UInt64.not_lt.mp (of_decide_eq_false hnot)
      simp only [handOut?_eq hg (hchain b hb) hle, Option.bind_eq_bind, Option.bind_some]

end Exact

theorem joinNext?_eq {next : Option Block} (hb : s.Encloses b) (hnext : ∀ c ∈ next, s.Encloses c) :
    s.joinNext? b next = some (joinNext g b next) ∧ s.Encloses (joinNext g b next) := by
  cases next with
  | none => exact ⟨rfl, hb⟩
  | some c =>
    have hc := hnext c rfl
    unfold joinNext? joinNext
    simp only [(stop?_eq hb).1, Option.bind_eq_bind, Option.bind_some]
    split
    · rename_i hstop
      obtain ⟨hjoined, hle⟩ := hb.absorb hc hstop
      obtain ⟨hmore, htotal⟩ := sums_behind (s := s) (a := b.size) (d := c.size) (by omega)
      simp only [hmore, htotal, Option.bind_some]
      refine ⟨?_, hjoined⟩
      rw [Block.absorb, UInt64.add_assoc]
    · exact ⟨rfl, hb⟩

theorem joinPrevious?_eq {around : FreeAround} (hb : s.Encloses b) (hprevious : ∀ c ∈ around.previous, s.Encloses c) :
    s.joinPrevious? around b = some (around.joinPrevious g b) := by
  unfold joinPrevious? FreeAround.joinPrevious
  cases hcase : around.previous with
  | none => rfl
  | some c =>
    have hc := hprevious c hcase
    simp only [(stop?_eq hc).1, Option.bind_eq_bind, Option.bind_some]
    split
    · rename_i hstop
      obtain ⟨-, hle⟩ := hc.absorb hb hstop
      obtain ⟨hmore, htotal⟩ := sums_behind (s := s) (a := b.size) (d := c.size) (by omega)
      simp only [hmore, htotal, Option.bind_some]
      rw [Block.absorb, UInt64.add_comm b.size, UInt64.add_comm g.headerSize]
    · rfl

theorem mem_freeAround (s : BlockSpace g) (offset : UInt64) :
    (∀ b ∈ (s.freeAround offset).previous, b ∈ s.freeChain) ∧ ∀ b ∈ (s.freeAround offset).next, b ∈ s.freeChain := by
  unfold freeAround
  rw [List.span_eq_takeWhile_dropWhile]
  refine ⟨fun b hb => ?_, fun b hb => ?_⟩
  · exact (List.takeWhile_prefix _).subset (List.mem_of_getLast? hb)
  · exact (List.dropWhile_suffix _).subset (List.mem_of_head? hb)

theorem reclaim?_eq (hchain : ∀ b ∈ s.freeChain, s.Encloses b) (hblock : s.Encloses (s.block offset)) :
    s.reclaim? offset = some (s.reclaim offset) := by
  have hprevious : ∀ c ∈ (s.freeAround offset).previous, s.Encloses c := fun c hc =>
    hchain c ((s.mem_freeAround offset).1 c hc)
  have hnext : ∀ c ∈ (s.freeAround offset).next, s.Encloses c := fun c hc =>
    hchain c ((s.mem_freeAround offset).2 c hc)
  have halone : s.Encloses
      ⟨offset, .free (s.block offset).size ((s.freeAround offset).next.map Block.offset)⟩ :=
    hblock.congr rfl (Block.size_free _ _ _)
  obtain ⟨hjoinNext, hjoined⟩ := joinNext?_eq halone hnext
  have hjoinPrevious := joinPrevious?_eq hjoined hprevious
  unfold reclaim? reclaim
  simp only [hjoinNext, hjoinPrevious, Option.bind_eq_bind, Option.bind_some]

theorem extend?_eq (hg : g.Exact) (hblock : s.Encloses (s.block offset))
    (hbehind : (s.block offset).stop g < s.capacity → s.Encloses (s.block ((s.block offset).stop g))) :
    s.extend? offset size = some (s.extend offset size) := by
  unfold extend? extend
  simp only [(stop?_eq hblock).1, Option.bind_eq_bind, Option.bind_some]
  split
  · rfl
  split
  · rfl
  rename_i hend
  have hb := hbehind (UInt64.not_le.mp hend)
  cases hfree : (s.block ((s.block offset).stop g)).header.isFree with
  | false => rfl
  | true =>
    obtain ⟨hjoined, hle⟩ := hblock.absorb hb rfl
    have hfirst : (s.block offset).size.toNat + g.headerSize.toNat ≤ s.capacity.toNat :=
      Nat.le_trans (Nat.le_add_right _ _) hle
    have htotal : ((s.block offset).size + g.headerSize).toNat + (s.block ((s.block offset).stop g)).size.toNat ≤
        s.capacity.toNat := by
      rw [Word.toNat_sum hfirst]
      exact hle
    simp only [sum?_eq hfirst, sum?_eq htotal, Option.bind_some, if_true, Bool.not_true, Bool.false_or,
      decide_eq_true_eq]
    change (if ((s.block offset).absorb g _).size < size then _ else _) = _
    split
    · rfl
    · rename_i henough
      exact congrArg (Option.bind · _) (handOut?_eq hg hjoined (UInt64.not_lt.mp henough))

theorem address?_eq (h : s.Encloses (s.block offset)) : s.address? offset = some (s.address offset) := by
  exact congrArg (Option.map s.arena.addressOf) (start?_eq h).1

theorem fresh?_eq {arena : Arena} (h : g.headerSize ≤ arena.size) : fresh? g arena = some (fresh g arena) := by
  unfold fresh?
  rw [Word.difference?_eq h]
  rfl

/-! ## Nor do the lookups -/

theorem headerOffset?_eq (s : BlockSpace g) (address : UInt64) :
    s.headerOffset? address = some (s.headerOffset address) := by
  unfold headerOffset? headerOffset
  cases s.arena.offsetOf? address with
  | none => rfl
  | some user =>
    by_cases hinside : user < g.headerSize
    · simp only [if_pos hinside, if_pos (Or.inl hinside)]
    · simp only [hinside, if_false, false_or, Word.difference?_eq (UInt64.not_lt.mp hinside),
        g.granularity.rem?_eq, Option.bind_eq_bind, Option.bind_some]

theorem lookupByTag?_eq (h : ∀ offset, s.headerOffset address = .ok offset → s.Encloses (s.block offset)) :
    s.lookupByTag? address = some (s.lookupByTag address) := by
  unfold lookupByTag? lookupByTag
  rw [headerOffset?_eq]
  cases hoffset : s.headerOffset address with
  | error fault => rfl
  | ok offset =>
    have hstop := (stop?_eq (h offset hoffset)).1
    simp only [hstop, Option.bind_some, bind, Except.bind]
    cases (s.block offset).header.isAllocated with
    | false => simp only [Bool.false_eq_true, if_false, false_and]
    | true => simp only [if_true, true_and]

theorem blocksFrom?_eq {fuel : Nat} {cursor : UInt64} (h : ∀ b ∈ s.blocksFrom fuel cursor, s.Encloses b) :
    s.blocksFrom? fuel cursor = some (s.blocksFrom fuel cursor) := by
  induction fuel generalizing cursor with
  | zero => rfl
  | succ fuel ih =>
    unfold blocksFrom at h
    unfold blocksFrom? blocksFrom
    split at h
    · rename_i hend
      rw [if_pos hend, if_pos hend]
    · rename_i hinside
      rw [List.forall_mem_cons] at h
      rw [if_neg hinside, if_neg hinside]
      simp only [(stop?_eq h.1).1, ih h.2, Option.bind_eq_bind, Option.bind_some]

theorem lookupByWalk?_eq (h : ∀ b ∈ s.blocks, s.Encloses b) :
    s.lookupByWalk? address = some (s.lookupByWalk address) := by
  unfold lookupByWalk? lookupByWalk
  rw [headerOffset?_eq]
  cases s.headerOffset address with
  | error fault => rfl
  | ok offset =>
    simp only [blocksFrom?_eq h, Option.bind_eq_bind, Option.bind_some]
    rfl

/-! ## Nor does the counting -/

/-- There is room for some more blocks beside those that were counted. -/
structure Admits (s : BlockSpace g) (u : Usage) (bs : List Block) : Prop where
  bytes : u.allocatedBytes.toNat + u.freeBytes.toNat + u.overhead.toNat +
    (g.front * bs.length + Block.bytes bs) ≤ s.capacity.toNat
  blocks : u.allocatedBlocks.toNat + u.freeBlocks.toNat ≤ u.overhead.toNat

/-- One more block is counted, and there is still room for the others. -/
theorem Admits.tally {u : Usage} {bs : List Block} (h : s.Admits u (b :: bs)) :
    s.tally? u b = some (u.add g b) ∧ s.Admits (u.add g b) bs := by
  obtain ⟨hbytes, hblocks⟩ := h
  have hfront := g.le_front
  rw [List.length_cons, Nat.mul_succ, Block.bytes_cons] at hbytes
  have hoverhead : u.overhead.toNat + g.headerSize.toNat ≤ s.capacity.toNat := by
    change _ + g.front ≤ _
    omega
  have hover := Word.toNat_sum hoverhead
  change _ = _ + g.front at hover
  have hone : (1 : UInt64).toNat = 1 := rfl
  unfold tally? Usage.add
  rw [sum?_eq hoverhead, Option.bind_eq_bind, Option.bind_some]
  cases b.header.isFree with
  | true =>
    have hcount : u.freeBlocks.toNat + (1 : UInt64).toNat ≤ s.capacity.toNat := by omega
    have hsize : u.freeBytes.toNat + b.size.toNat ≤ s.capacity.toNat := by omega
    simp only [if_true, sum?_eq hcount, sum?_eq hsize, Option.bind_some, true_and]
    refine ⟨?_, ?_⟩
    · simp only [hover, Word.toNat_sum hsize]
      omega
    · simp only [hover, Word.toNat_sum hcount]
      omega
  | false =>
    have hcount : u.allocatedBlocks.toNat + (1 : UInt64).toNat ≤ s.capacity.toNat := by omega
    have hsize : u.allocatedBytes.toNat + b.size.toNat ≤ s.capacity.toNat := by omega
    simp only [Bool.false_eq_true, if_false, sum?_eq hcount, sum?_eq hsize, Option.bind_some, true_and]
    refine ⟨?_, ?_⟩
    · simp only [hover, Word.toNat_sum hsize]
      omega
    · simp only [hover, Word.toNat_sum hcount]
      omega

theorem Admits.foldlM {u : Usage} {bs : List Block} (h : s.Admits u bs) :
    bs.foldlM s.tally? u = some (bs.foldl (Usage.add g) u) ∧ s.Admits (bs.foldl (Usage.add g) u) [] := by
  induction bs generalizing u with
  | nil => exact ⟨rfl, h⟩
  | cons b bs ih =>
    obtain ⟨htally, hrest⟩ := h.tally
    rw [List.foldlM_cons, htally, List.foldl_cons]
    exact ih hrest

theorem Admits.accounted?_eq {u : Usage} (h : s.Admits u []) : s.accounted? u = some u.accounted := by
  have hbytes := h.bytes
  have husable : u.allocatedBytes.toNat + u.freeBytes.toNat ≤ s.capacity.toNat := by omega
  have hall : (u.allocatedBytes + u.freeBytes).toNat + u.overhead.toNat ≤ s.capacity.toNat := by
    rw [Word.toNat_sum husable]
    omega
  unfold accounted?
  rw [sum?_eq husable, Option.bind_eq_bind, Option.bind_some, sum?_eq hall]
  rfl

end BlockSpace

end ArenaHeap
