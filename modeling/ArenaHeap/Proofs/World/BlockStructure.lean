import ArenaHeap.Proofs.World.Steps

/-!
# The structure of blocks

* `BlockSpace.Walks` : blocks one right behind the other up to the capacity;
* `BlockSpace.Follows` : blocks that are linked up to the end of a chain;
* `BlockSpace.WellFormed` : the blocks tile the arena on the grid, and the free ones are chained upwards
  and do not border on each other;
* `Reachable.blocks_wellFormed` : the spaces of every reachable world are well formed, if no constant wraps;
* `hollow_not_wellFormed` : where the least block wraps, a block without usable bytes is split off.
-/

namespace ArenaHeap

open Tiling

namespace BlockSpace

variable {g : Geometry} {s : BlockSpace g} {ts : List Tile}

/-- The blocks lie one right behind the other from an offset to the capacity. -/
inductive Walks (s : BlockSpace g) : Nat → List Block → Prop
  | stop : Walks s s.capacity.toNat []
  | step {b : Block} {bs : List Block} (hb : s.block b.offset = b)
    (h : Walks s (b.offset.toNat + g.front + b.size.toNat) bs) : Walks s b.offset.toNat (b :: bs)

/-- The blocks are linked from a first one to the end of the chain. -/
inductive Follows (s : BlockSpace g) : Option UInt64 → List Block → Prop
  | stop : Follows s none []
  | step {b : Block} {bs : List Block} (hb : s.block b.offset = b) (h : Follows s b.header.next? bs) :
    Follows s (some b.offset) (b :: bs)

/-- The blocks tile the arena on the grid, and the free ones are chained upwards and do not border on
each other. -/
structure WellFormed (s : BlockSpace g) : Prop where
  walks : s.Walks 0 s.blocks
  tags : ∀ b ∈ s.blocks, b.header.isFree = true ∨ b.header.isAllocated = true
  offsets : ∀ b ∈ s.blocks, g.grid ∣ b.offset.toNat
  sizes : ∀ b ∈ s.blocks, g.grid ∣ b.size.toNat ∧ 0 < b.size.toNat
  follows : s.Follows s.head s.freeChain
  chain : s.freeChain = s.blocks.filter (·.header.isFree)
  ascending : s.freeChain.Pairwise fun b c => b.offset < c.offset
  apart : s.blocks.IsChain fun b c => ¬ (b.header.isFree = true ∧ c.header.isFree = true)

/-! ## Rendered tilings -/

theorem walks_render {o : Nat} {link : Option UInt64} (hm : s.arena.memory.Bears (render g.front o ts link))
    (hspan : o + span g.front ts = s.capacity.toNat) : s.Walks o (render g.front o ts link) := by
  have hcap := s.capacity_lt
  induction ts generalizing o with
  | nil =>
    obtain rfl : o = s.capacity.toNat := hspan
    exact .stop
  | cons t ts ih =>
    rw [render_cons, Memory.bears_cons] at hm
    rw [span_cons] at hspan
    have hoffset : (UInt64.ofNat o).toNat = o := Word.toNat_ofNat (by omega)
    have hsize : (UInt64.ofNat t.size).toNat = t.size := Word.toNat_ofNat (by omega)
    have hrest := ih hm.2 (by omega)
    have hwalks : s.Walks (UInt64.ofNat o).toNat (render g.front o (t :: ts) link) := by
      refine .step (block_eq_of_header hm.1) ?_
      simp only [Block.size, Tile.size_header, hoffset, hsize, Nat.add_assoc]
      exact hrest
    rwa [hoffset] at hwalks

theorem follows_render {o : Nat} (hm : s.arena.memory.Bears (render g.front o ts none))
    (hend : o + span g.front ts < 2 ^ 64) :
    s.Follows (firstFree g.front o ts none) (frees g.front o ts none) := by
  have hfront := g.le_front
  induction ts generalizing o with
  | nil => exact .stop
  | cons t ts ih =>
    rw [render_cons, Memory.bears_cons] at hm
    rw [span_cons] at hend
    have hrest := ih hm.2 (by omega)
    cases ht : t.free with
    | true =>
      have hlink : firstFree g.front (o + (g.front + t.size)) ts none ≠ some Header.nil :=
        firstFree_ne_nil (by omega) (by omega) nofun
      rw [Tile.header_free ht] at hm
      rw [firstFree_free ht, frees_free ht]
      refine .step (block_eq_of_header hm.1) ?_
      rw [Header.next?_free _ hlink]
      exact hrest
    | false =>
      rw [firstFree_live ht, frees_live ht]
      exact hrest

theorem Sound.wellFormed (hs : s.Sound ts) : s.WellFormed := by
  have hlt := hs.shows.span_lt
  have hblocks := hs.shows.blocks_eq hs.proper
  have hchain := hs.shows.freeChain_eq hs.proper
  refine ⟨?_, ?_, ?_, ?_, ?_, ?_, ?_, ?_⟩
  · rw [hblocks]
    exact walks_render hs.shows.headers (by rw [Nat.zero_add, hs.shows.covers])
  · intro b hb
    rw [hs.isFree_block hb]
    cases b.header.isAllocated with
    | false => exact Or.inl rfl
    | true => exact Or.inr rfl
  · exact fun b hb => (hs.bounds_block hb).2.1
  · exact fun b hb => (hs.bounds_block hb).2.2
  · rw [hchain, hs.shows.head]
    exact follows_render hs.shows.headers (by omega)
  · rw [hchain, hblocks]
    rfl
  · rw [hchain]
    change ((render g.front 0 ts none).filter _).Pairwise _
    rw [← hblocks]
    exact hs.ascending.filter _
  · have hfree : (ts.map Tile.free).IsChain fun a b => ¬ (a = true ∧ b = true) :=
      (List.isChain_map Tile.free).mpr hs.proper.apart
    rw [← map_isFree_render, ← hblocks] at hfree
    exact (List.isChain_map fun b : Block => b.header.isFree).mp hfree

end BlockSpace

/-- In every reachable world, the blocks of an arena are well formed. -/
theorem World.Reachable.blocks_wellFormed {geometry : Nat → Geometry} {hostOf : Nat → Nat}
    {stores : Nat → BackingStore} {w : World geometry hostOf} (hg : ∀ k, (geometry k).Exact)
    (h : Reachable stores w) {k : Nat} {s : BlockSpace (geometry k)}
    (hs : (w.allocators k).space = some s) : s.WellFormed := by
  obtain ⟨entries, n, hw⟩ := h.sound hg
  obtain ⟨ts, hsound⟩ := (hw.lends k).sound hs
  exact hsound.wellFormed

theorem World.tiny_wellFormed : ∃ s, (tiny.allocators 0).space = some s ∧ s.WellFormed := by
  have hready : (tiny.allocators 0).space.isSome = true := by decide +kernel
  obtain ⟨s, hs⟩ := Option.isSome_iff_exists.mp hready
  exact ⟨s, hs, tiny_reachable.blocks_wellFormed (fun _ => Geometry.standard_exact) hs⟩

/-- The standard grain, and a least block that wraps to no bytes when it is padded. -/
def Geometry.boundless : Geometry := { standard with leastBlock := 0xFFFFFFFFFFFFFFFF }

/-- One arena of 96 bytes, with a block of 32 bytes and a header behind it. -/
def World.hollow : World (fun _ => .boundless) fun _ => 0 :=
  (((World.start fun _ => .zeroed (fun _ => true) 4096).perform (.init 0 96)).2.perform (.acquire 0 32)).2

/-- A block that is split off has no usable bytes, since the least block takes none. -/
theorem World.hollow_not_wellFormed : ¬ Geometry.boundless.Exact ∧
    Reachable (fun _ => .zeroed (fun _ => true) 4096) hollow ∧ ∃ s, (hollow.allocators 0).space = some s ∧
      s.blocks.map (fun b => (b.offset, b.size, b.header.isFree)) = [(0, 32, false), (64, 0, true)] ∧
      ¬ s.WellFormed := by
  have hblocks : (hollow.allocators 0).space.map
      (fun s => s.blocks.map fun b => (b.offset, b.size, b.header.isFree)) =
        some [(0, 32, false), (64, 0, true)] := by decide +kernel
  obtain ⟨s, hs, hshape⟩ := Option.map_eq_some_iff.mp hblocks
  refine ⟨by decide, .step (.step .start (allowed_first 96 (by decide) (by decide))) trivial, s, hs, hshape, ?_⟩
  intro hwell
  have hempty : ((64 : UInt64), (0 : UInt64), true) ∈
      s.blocks.map fun b => (b.offset, b.size, b.header.isFree) := by
    rw [hshape]
    decide
  obtain ⟨b, hb, htriple⟩ := List.mem_map.mp hempty
  have hsize : b.size = 0 := congrArg (fun x => x.2.1) htriple
  have hpos := (hwell.sizes b hb).2
  rw [hsize] at hpos
  exact absurd hpos (by decide)

end ArenaHeap
