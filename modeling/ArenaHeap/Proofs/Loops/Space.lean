import ArenaHeap.BlockSpace.Edit
import ArenaHeap.BlockSpace.Lookup
import ArenaHeap.Proofs.Loans.Usage
import ArenaHeap.Proofs.Loops.Basic
import ArenaHeap.Proofs.World.BlockStructure

/-!
# The loops of a block space

* `nextBlock`, `nextFree` : how a walk over the blocks goes on, and one along the chain of free blocks;
* `fitting`, `surrounding`, `locating`, `tallying` : the loops over them, and their outcomes over a list;
* `BlockSpace.LoopsEnd` : all of them end, with the outcomes that the operations go by;
* `Sound.loopsEnd` : so they do in a sound space.
-/

namespace ArenaHeap

open Tiling

namespace BlockSpace

variable {g : Geometry} {s : BlockSpace g} {ts : List Tile}

/-! ## Walks -/

/-- The block at a cursor, unless that is at the end of the arena, and the cursor right behind it. -/
def nextBlock (s : BlockSpace g) (cursor : UInt64) : Option (Block × UInt64) :=
  if s.capacity ≤ cursor then none else some (s.block cursor, (s.block cursor).stop g)

/-- The block at a cursor along the chain, and its successor there. -/
def nextFree (s : BlockSpace g) (cursor : Option UInt64) : Option (Block × Option UInt64) :=
  cursor.map fun offset => (s.block offset, (s.block offset).header.next?)

/-- A walk over blocks that lie one right behind the other ends at the end of the arena. -/
theorem Walks.iterates {o : Nat} {bs : List Block} (h : s.Walks o bs)
    (hbounds : ∀ b ∈ bs, b.offset.toNat + (g.front + b.size.toNat) ≤ s.capacity.toNat) :
    Iterates s.nextBlock (.ofNat o) bs s.capacity := by
  have hfront := g.le_front
  have hcap := s.capacity_lt
  induction h with
  | stop =>
    rw [UInt64.ofNat_toNat]
    exact .stop (if_pos (UInt64.le_refl _))
  | @step b bs hb h ih =>
    have hle := hbounds b List.mem_cons_self
    have hinside : ¬ s.capacity ≤ b.offset := by
      rw [UInt64.le_iff_toNat_le]
      omega
    have hstop : b.stop g = .ofNat (b.offset.toNat + g.front + b.size.toNat) := by
      rw [Block.stop, UInt64.ofNat_add, UInt64.ofNat_add, UInt64.ofNat_toNat, UInt64.ofNat_toNat, Geometry.front,
        UInt64.ofNat_toNat]
    rw [UInt64.ofNat_toNat]
    refine .step ?_ (ih fun c hc => hbounds c (List.mem_cons_of_mem _ hc))
    rw [nextBlock, if_neg hinside, hb, hstop]

/-- A walk along linked blocks ends at the end of the chain. -/
theorem Follows.iterates {cursor : Option UInt64} {bs : List Block} (h : s.Follows cursor bs) :
    Iterates s.nextFree cursor bs none := by
  induction h with
  | stop => exact .stop rfl
  | step hb h ih =>
    refine .step ?_ ih
    rw [nextFree, Option.map_some, hb]

/-! ## What the loops do -/

/-- The search for a free block with `size` usable bytes: it is handed out, and taken from the chain. -/
def fitting (s : BlockSpace g) (size : UInt64) : Loop Block (Option UInt64) (Option (UInt64 × BlockSpace g)) where
  visit previous b :=
    if size ≤ b.size then
      let (taken, replacement) := s.handOut b size
      .leave (some (b.offset, taken.redirect previous replacement))
    else .go (some b.offset)
  finish _ := none

/-- The search for the place of `offset` in the chain, with the last two blocks that were passed. -/
def surrounding (offset : UInt64) : Loop Block (Option Block × Option Block) FreeAround where
  visit passed b :=
    if offset < b.offset then .leave ⟨passed.1, passed.2, some b⟩ else .go (passed.2, some b)
  finish passed := ⟨passed.1, passed.2, none⟩

/-- The search for the block at `offset`, which `address` would name. -/
def locating (address offset : UInt64) : Loop Block Unit (Except Fault UInt64) where
  visit _ b :=
    if b.offset = offset then
      .leave (if b.header.isAllocated then .ok offset else .error (.doubleFree address))
    else if offset < b.offset then .leave (.error (.foreignPointer address))
    else .go ()
  finish _ := .error (.foreignPointer address)

/-- The counting of blocks. -/
def tallying (g : Geometry) : Loop Block Usage Usage where
  visit u b := .go (u.add g b)
  finish u := u

theorem fold_fitting (s : BlockSpace g) (size : UInt64) : (s.fitting size).fold none s.freeChain = s.firstFit size := by
  have hspan := Loop.fold_span (s.fitting size) (fun b => decide (b.size < size))
    (fun passed => passed.getLast?.map Block.offset)
    (fun passed found? => found?.map fun b =>
      (b.offset, (s.handOut b size).1.redirect (passed.getLast?.map Block.offset) (s.handOut b size).2))
    ?_ ?_ (fun _ => rfl) [] s.freeChain
  · refine hspan.trans ?_
    unfold firstFit
    generalize s.freeChain.span (fun b => decide (b.size < size)) = parts
    obtain ⟨passed, _ | ⟨b, rest⟩⟩ := parts
    · rfl
    · rfl
  · intro passed b hlt
    simp only [fitting, if_neg (UInt64.not_le.mpr (of_decide_eq_true hlt)), List.getLast?_concat, Option.map_some]
  · intro passed b hge
    simp only [fitting, if_pos (UInt64.not_lt.mp (of_decide_eq_false hge)), Option.map_some]

theorem fold_surrounding (s : BlockSpace g) (offset : UInt64) :
    (surrounding offset).fold (none, none) s.freeChain = s.freeAround offset := by
  refine Loop.fold_span (surrounding offset) (fun b => decide (b.offset ≤ offset))
    (fun passed => (passed.dropLast.getLast?, passed.getLast?))
    (fun passed next => ⟨passed.dropLast.getLast?, passed.getLast?, next⟩)
    ?_ ?_ (fun _ => rfl) [] s.freeChain
  · intro passed b hle
    simp only [surrounding, if_neg (UInt64.not_lt.mpr (of_decide_eq_true hle)), List.dropLast_concat,
      List.getLast?_concat]
  · intro passed b hlt
    simp only [surrounding, if_pos (UInt64.not_le.mp (of_decide_eq_false hlt))]

theorem fold_locating (address offset : UInt64) (bs : List Block) :
    (locating address offset).fold () bs = judge bs address offset := by
  induction bs with
  | nil => rfl
  | cons b bs ih =>
    unfold judge
    by_cases hat : b.offset = offset
    · rw [if_pos hat]
      exact Loop.fold_leave (if_pos hat) bs
    rw [if_neg hat]
    by_cases hbeyond : offset < b.offset
    · rw [if_pos hbeyond]
      exact Loop.fold_leave ((if_neg hat).trans (if_pos hbeyond)) bs
    · rw [if_neg hbeyond, ← ih]
      exact Loop.fold_go ((if_neg hat).trans (if_neg hbeyond)) bs

theorem fold_tallying (s : BlockSpace g) : (tallying g).fold { capacity := s.capacity } s.blocks = s.usage :=
  Loop.fold_foldl (tallying g) (Usage.add g) (fun _ _ => rfl) _ _

/-! ## Their ends -/

/-- All loops of a space end: none visits a block twice, and none visits more blocks than the arena has room for.
Their outcomes are what the operations go by. -/
structure LoopsEnd (s : BlockSpace g) : Prop where
  firstFit : ∀ size, (s.fitting size).EndsWithin s.nextFree s.head none Block.offset s.blockBound (s.firstFit size)
  around : ∀ offset, (surrounding offset).EndsWithin s.nextFree s.head (none, none) Block.offset s.blockBound
    (s.freeAround offset)
  locate : ∀ address offset, (locating address offset).EndsWithin s.nextBlock 0 () Block.offset s.blockBound
    (judge s.blocks address offset)
  usage : (tallying g).EndsWithin s.nextBlock 0 { capacity := s.capacity } Block.offset s.blockBound s.usage
  blocks : ∀ {τ ρ : Type} (loop : Loop Block τ ρ) (t : τ),
    loop.EndsWithin s.nextBlock 0 t Block.offset s.blockBound (loop.fold t s.blocks)
  chain : ∀ {τ ρ : Type} (loop : Loop Block τ ρ) (t : τ),
    loop.EndsWithin s.nextFree s.head t Block.offset s.blockBound (loop.fold t s.freeChain)

theorem Sound.length_blocks_le (hs : s.Sound ts) : s.blocks.length ≤ s.blockBound := by
  have hlength := congrArg List.length hs.map_isFree
  rw [List.length_map, List.length_map] at hlength
  rw [hlength]
  exact hs.shows.length_le hs.proper

theorem Sound.nodup_blocks (hs : s.Sound ts) : (s.blocks.map Block.offset).Nodup := by
  rw [List.nodup_iff_pairwise_ne, List.pairwise_map]
  exact hs.ascending.imp UInt64.ne_of_lt

theorem Sound.loopsEnd (hs : s.Sound ts) : s.LoopsEnd := by
  have hwell := hs.wellFormed
  have hsub : s.freeChain.Sublist s.blocks := by
    rw [hwell.chain]
    exact List.filter_sublist
  have hwalk : Iterates s.nextBlock 0 s.blocks s.capacity :=
    hwell.walks.iterates fun b hb => (hs.bounds_block hb).1
  have hblocks {τ ρ : Type} (loop : Loop Block τ ρ) (t : τ) :
      loop.EndsWithin s.nextBlock 0 t Block.offset s.blockBound (loop.fold t s.blocks) :=
    hwalk.endsWithin loop t hs.nodup_blocks hs.length_blocks_le
  have hchain {τ ρ : Type} (loop : Loop Block τ ρ) (t : τ) :
      loop.EndsWithin s.nextFree s.head t Block.offset s.blockBound (loop.fold t s.freeChain) :=
    hwell.follows.iterates.endsWithin loop t (hs.nodup_blocks.sublist (hsub.map _))
      (Nat.le_trans hsub.length_le hs.length_blocks_le)
  refine ⟨fun size => ?_, fun offset => ?_, fun address offset => ?_, ?_, hblocks, hchain⟩
  · rw [← fold_fitting]
    exact hchain _ _
  · rw [← fold_surrounding]
    exact hchain _ _
  · rw [← fold_locating]
    exact hblocks _ _
  · rw [← fold_tallying]
    exact hblocks _ _

end BlockSpace

end ArenaHeap
