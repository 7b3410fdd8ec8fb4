import ArenaHeap.Proofs.Loans.Lookup
import ArenaHeap.Proofs.Loans.Usage
import ArenaHeap.Proofs.World.Isolation

/-!
# First fit

* `BlockSpace.Fits`, `BlockSpace.Lowest` : a free block that is large enough, and the first of them;
* `BlockSpace.largestFree_lt` : what the largest free block says of all of them;
* `Block.cut` : what is handed out of a free block, and what is left of it;
* `BlockSpace.Serves` : a block is cut where it lies, and all other blocks stay;
* `Sound.firstFit_lowest` : `firstFit` cuts the lowest block that is large enough;
* `Allocator.acquire_outcome` : the four ways in which `acquire` ends;
* `World.FirstFit` : what a request gets, by the blocks and by what the allocator tells of them;
* `Reachable.acquires_first_fit` : so it is in every reachable world.
-/

namespace ArenaHeap

open Tiling

/-! ## Large enough -/

namespace BlockSpace

variable {g : Geometry} {s s' : BlockSpace g} {ts : List Tile} {b c : Block} {n : Nat}

/-- The block is free and has `n` usable bytes. -/
structure Fits (s : BlockSpace g) (n : Nat) (b : Block) : Prop where
  mem : b ∈ s.blocks
  free : b.header.isFree = true
  large : n ≤ b.size.toNat

/-- The block is the one at the lowest offset of those that are free and have `n` usable bytes. -/
structure Lowest (s : BlockSpace g) (n : Nat) (b : Block) : Prop where
  fits : s.Fits n b
  first : ∀ c, s.Fits n c → b.offset ≤ c.offset

theorem Sound.lowest_or (hs : s.Sound ts) (n : Nat) : (∀ b, ¬ s.Fits n b) ∨ ∃ b, s.Lowest n b := by
  cases hfind : s.blocks.find? fun b => b.header.isFree && decide (n ≤ b.size.toNat) with
  | none =>
    refine Or.inl fun b hb => List.find?_eq_none.mp hfind b hb.mem ?_
    rw [hb.free, Bool.true_and, decide_eq_true hb.large]
  | some b =>
    obtain ⟨hprop, below, above, heq, hbelow⟩ := List.find?_eq_some_iff_append.mp hfind
    rw [Bool.and_eq_true, decide_eq_true_eq] at hprop
    have hmem : b ∈ s.blocks := by
      rw [heq]
      exact List.mem_append_right _ List.mem_cons_self
    have hascending := hs.ascending
    rw [heq] at hascending
    refine Or.inr ⟨b, ⟨hmem, hprop.1, hprop.2⟩, fun c hc => ?_⟩
    have hmem' := hc.mem
    rw [heq, List.mem_append, List.mem_cons] at hmem'
    rcases hmem' with hin | rfl | hin
    · have hnot := hbelow c hin
      rw [hc.free, Bool.true_and, decide_eq_true hc.large] at hnot
      cases hnot
    · exact UInt64.le_refl _
    · have hcons := (List.pairwise_append.mp hascending).2.1
      exact UInt64.le_of_lt ((List.pairwise_cons.mp hcons).1 c hin)

end BlockSpace

/-- No free block is large enough if and only if the largest is not. -/
theorem BlockSpace.largestFree_lt {g : Geometry} (s : BlockSpace g) {n : Nat} (hn : 0 < n) :
    (∀ b, ¬ s.Fits n b) ↔ s.usage.largestFree.toNat < n := by
  unfold usage
  rw [Usage.largestFree_foldl_lt]
  constructor
  · intro h
    refine ⟨hn, fun b hb hfree => ?_⟩
    by_contra hle
    exact h b ⟨hb, hfree, by omega⟩
  · intro h b hb
    have hlt := h.2 b hb.mem hb.free
    have hle := hb.large
    omega

/-! ## Cutting a block -/

namespace Block

/-- What is handed out of a free block for `n` bytes, and the free block that is left behind it if the
surplus reaches the split threshold. -/
def cut (g : Geometry) (b : Block) (n : Nat) : Block × Option Block :=
  if g.splitThreshold.toNat ≤ b.size.toNat - n then
    (⟨b.offset, .allocated (.ofNat n)⟩,
      some ⟨.ofNat (b.offset.toNat + g.front + n), .free (.ofNat (b.size.toNat - n - g.front)) b.header.next?⟩)
  else (⟨b.offset, .allocated b.size⟩, none)

variable {g : Geometry} {b c : Block} {n : Nat}

theorem uses_congr (h : b.unlinked = c.unlinked) : b.Uses g = c.Uses g := by
  obtain ⟨hoffset, hheader⟩ := Block.mk.inj h
  obtain ⟨hsize, -, -⟩ := Header.mk.inj hheader
  unfold Uses size
  rw [hoffset, hsize]

theorem toNat_size_cut (g : Geometry) (b : Block) (hn : n ≤ b.size.toNat) : (b.cut g n).1.size.toNat =
    if g.splitThreshold.toNat ≤ b.size.toNat - n then n else b.size.toNat := by
  have hlt := b.size.toNat_lt
  unfold cut
  split
  · exact Word.toNat_ofNat (by omega)
  · rfl

section Exact

variable (hg : g.Exact)
include hg

theorem cut_bounds (hn : n ≤ b.size.toNat) :
    n ≤ (b.cut g n).1.size.toNat ∧ (b.cut g n).1.size.toNat < n + g.splitThreshold.toNat := by
  have hthreshold := Geometry.toNat_splitThreshold hg
  have hleast := Geometry.least_pos hg
  rw [toNat_size_cut g b hn]
  split <;> omega

/-- What is left is a free block of what the other one and its header do not take. -/
theorem cut_rest {r : Block} (hr : r ∈ (b.cut g n).2) :
    r.header.isFree = true ∧ r.size.toNat = b.size.toNat - n - g.headerSize.toNat ∧
      g.minimumBlock.toNat ≤ r.size.toNat := by
  have hthreshold := Geometry.toNat_splitThreshold hg
  have hlt := b.size.toNat_lt
  unfold cut at hr
  split at hr
  · obtain rfl := Option.some.inj hr
    have hsize : (UInt64.ofNat (b.size.toNat - n - g.front)).toNat = b.size.toNat - n - g.front :=
      Word.toNat_ofNat (by omega)
    refine ⟨rfl, hsize, ?_⟩
    rw [Block.size_free, hsize]
    show g.least ≤ _
    omega
  · cases hr

end Exact

theorem offset_cut (g : Geometry) (b : Block) (n : Nat) : (b.cut g n).1.offset = b.offset := by
  unfold cut
  split <;> rfl

theorem filter_cut (g : Geometry) (b : Block) (n : Nat) :
    ((b.cut g n).1 :: (b.cut g n).2.toList).filter (·.header.isFree) = (b.cut g n).2.toList := by
  unfold cut
  split <;> rfl

end Block

/-! ## Tiles that are cut -/

namespace Tiling

variable {g : Geometry} {h o : Nat} {ts : List Tile} {i n : Nat}

/-- The blocks of a carved tile are those that its block is cut to. -/
theorem render_carve (hg : g.Exact) {size : Nat} {next : Option UInt64}
    (hend : o + (g.front + size) < 2 ^ 63) (hnext : next ≠ some Header.nil) :
    render g.front o (carve g size n) next =
      (Block.cut g ⟨.ofNat o, .free (.ofNat size) next⟩ n).1 ::
        (Block.cut g ⟨.ofNat o, .free (.ofNat size) next⟩ n).2.toList := by
  have hthreshold := Geometry.toNat_splitThreshold hg
  have ho : (UInt64.ofNat o).toNat = o := Word.toNat_ofNat (by omega)
  have hsize : (UInt64.ofNat size).toNat = size := Word.toNat_ofNat (by omega)
  have hseam : o + (g.front + n) = o + g.front + n := by omega
  unfold Block.cut carve
  rw [Block.size_free, hsize, ho, hthreshold, Header.next?_free _ hnext]
  split
  · rw [render_cons, render_cons, Tile.header_live rfl, Tile.header_free rfl, render_nil, firstFree_nil]
    simp only [hseam, Option.toList_some]
  · rw [render_cons, Tile.header_live rfl, render_nil]
    rfl

/-- The cells of headers are those in front of blocks. -/
theorem HeaderCell.heads (hi : HeaderCell g.front o ts i) (hend : o + span g.front ts < 2 ^ 64)
    (link : Option UInt64) : ∃ b ∈ render g.front o ts link, b.Heads g i := by
  have hfront := g.le_front
  obtain ⟨pre, t, post, rfl, hlo, hhi⟩ := hi
  rw [span_append, span_cons] at hend
  refine ⟨_, mem_render_mid o pre t post link, ?_⟩
  unfold Block.Heads
  simp only
  rw [Word.toNat_ofNat (by omega)]
  omega

end Tiling

/-! ## Serving a request -/

namespace BlockSpace

variable {g : Geometry} {s s' : BlockSpace g} {ts : List Tile} {b c : Block} {n : Nat}

/-- The block is cut where it lies and leaves what is left of it in the chain. All other blocks stay with
their bytes; at most the one that was linked to it is linked anew. -/
structure Serves (s : BlockSpace g) (b : Block) (n : Nat) (s' : BlockSpace g) : Prop where
  base : s'.arena.base = s.arena.base
  layout : s'.arena.layout = s.arena.layout
  blocks : ∃ below below' above, s.blocks = below ++ b :: above ∧
    s'.blocks = below' ++ (b.cut g n).1 :: ((b.cut g n).2.toList ++ above) ∧
    below'.map Block.unlinked = below.map Block.unlinked
  chain : ∃ below below' above, s.freeChain = below ++ b :: above ∧
    s'.freeChain = below' ++ ((b.cut g n).2.toList ++ above) ∧
    below'.map Block.unlinked = below.map Block.unlinked
  bytes : ∀ c ∈ s.blocks, c ≠ b → ∀ i, c.Uses g i → s'.arena.memory.get i = s.arena.memory.get i

/-- Bytes of the blocks that stay are not written. -/
theorem Becomes.get_uses {ts' : List Tile} (hb : s.Becomes s' ts') (hs' : s'.Sound ts') {c : Block}
    (hc : c.unlinked ∈ s'.blocks.map Block.unlinked) {i : Nat} (hi : c.Uses g i) :
    s'.arena.memory.get i = s.arena.memory.get i := by
  have hlt := hs'.shows.span_lt
  apply hb.frame.get
  intro hcell
  obtain ⟨d, hd, hheads⟩ := hcell.heads (by omega) none
  obtain ⟨c', hc', hsame⟩ := List.mem_map.mp hc
  rw [← hs'.shows.blocks_eq hs'.proper] at hd
  rw [← Block.uses_congr hsame] at hi
  exact hs'.isolated.headers c' hc' d hd i ⟨hi, hheads⟩

theorem Sound.fits_mid {pre post : List Tile} {t : Tile} (hs : s.Sound (pre ++ t :: post))
    (ht : t.free = true) (hn : n ≤ t.size) : s.Fits n (s.block (.ofNat (span g.front pre))) := by
  have hlt := hs.shows.span_lt
  rw [span_append, span_cons] at hlt
  refine ⟨?_, ?_, ?_⟩
  · have hmem := mem_render_mid (h := g.front) 0 pre t post none
    rw [Nat.zero_add] at hmem
    rw [hs.shows.blocks_eq hs.proper, hs.shows.block_eq]
    exact hmem
  · rw [hs.shows.block_eq, Tile.isFree_header, ht]
  · rw [hs.shows.size_block, Word.toNat_ofNat (by omega)]
    exact hn

/-- The lowest block that is large enough is a free tile with no such tile in front of it. -/
theorem Lowest.split (hs : s.Sound ts) (hb : s.Lowest n b) : ∃ pre t post, ts = pre ++ t :: post ∧
    t.free = true ∧ n ≤ t.size ∧ (∀ u ∈ pre, u.free = true → u.size < n) ∧
    b = s.block (.ofNat (span g.front pre)) := by
  have hlt := hs.shows.span_lt
  have hmem := hb.fits.mem
  have hfree := hb.fits.free
  have hlarge := hb.fits.large
  have hfront := g.le_front
  rw [hs.shows.blocks_eq hs.proper] at hmem
  obtain ⟨pre, t, post, rfl, rfl⟩ := mem_render hmem
  rw [span_append, span_cons] at hlt
  rw [Tile.isFree_header] at hfree
  rw [Block.size, Tile.size_header, Word.toNat_ofNat (by omega)] at hlarge
  refine ⟨pre, t, post, rfl, hfree, hlarge, ?_, by rw [hs.shows.block_eq, Nat.zero_add]⟩
  intro u hu hufree
  by_contra hle
  obtain ⟨p, q, rfl⟩ := List.append_of_mem hu
  rw [List.append_assoc, List.cons_append] at hs
  have hfirst := hb.first _ (hs.fits_mid hufree (by omega))
  simp only [block, span_append, span_cons] at hfirst hlt
  rw [Word.ofNat_le_iff (by omega) (by omega)] at hfirst
  omega

theorem Sound.firstFit_none (hs : s.Sound ts) (hn : n < 2 ^ 64) (hnone : ∀ b, ¬ s.Fits n b) :
    s.firstFit (.ofNat n) = none := by
  apply firstFit_eq_none hs.shows hs.proper hn
  intro t ht hfree
  by_contra hle
  obtain ⟨pre, post, rfl⟩ := List.append_of_mem ht
  exact hnone _ (hs.fits_mid hfree (by omega))

section Exact

variable (hg : g.Exact)
include hg

/-- Tiles that are carved anew as a free tile would be, in blocks and in the chain: they are cut as the free
block would be that covers them. -/
theorem Becomes.recut {pre mid post : List Tile} {size : Nat} (hs : s.Sound (pre ++ (mid ++ post)))
    (hmid : span g.front mid = g.front + size) (hn : n ≤ size)
    (hs' : s'.Sound (pre ++ (carve g size n ++ post)))
    (hb : ⟨.ofNat (span g.front pre),
      .free (.ofNat size) (firstFree g.front (span g.front pre + (g.front + size)) post none)⟩ = b) :
    (∃ below below' above, s.blocks = below ++ (render g.front (span g.front pre) mid
        (firstFree g.front (span g.front pre + (g.front + size)) post none) ++ above) ∧
      s'.blocks = below' ++ (b.cut g n).1 :: ((b.cut g n).2.toList ++ above) ∧
      below'.map Block.unlinked = below.map Block.unlinked) ∧
    ∃ below below' above, s.freeChain = below ++ (frees g.front (span g.front pre) mid
        (firstFree g.front (span g.front pre + (g.front + size)) post none) ++ above) ∧
      s'.freeChain = below' ++ ((b.cut g n).2.toList ++ above) ∧
      below'.map Block.unlinked = below.map Block.unlinked := by
  have hfront := g.le_front
  have hlt := hs.shows.span_lt
  rw [span_append, span_append, hmid] at hlt
  have hseam : span g.front pre + span g.front (carve g size n) = span g.front pre + (g.front + size) := by
    rw [span_carve hn]
  have hnext : firstFree g.front (span g.front pre + (g.front + size)) post none ≠ some Header.nil :=
    firstFree_ne_nil (by omega) (by omega) nofun
  have hcarve := render_carve (n := n) hg (show span g.front pre + (g.front + size) < 2 ^ 63 by omega) hnext
  rw [hb] at hcarve
  have hfrees : frees g.front (span g.front pre) (carve g size n)
      (firstFree g.front (span g.front pre + (g.front + size)) post none) = (b.cut g n).2.toList := by
    unfold frees
    rw [hcarve, Block.filter_cut]
  have hblocks := hs.shows.blocks_eq hs.proper
  have hblocks' := hs'.shows.blocks_eq hs'.proper
  have hchain := hs.shows.freeChain_eq hs.proper
  have hchain' := hs'.shows.freeChain_eq hs'.proper
  rw [render_append, render_append, Nat.zero_add, hmid] at hblocks
  rw [render_append, render_append, Nat.zero_add, hseam, hcarve, List.cons_append] at hblocks'
  rw [frees_append, frees_append, Nat.zero_add, hmid] at hchain
  rw [frees_append, frees_append, Nat.zero_add, hseam, hfrees] at hchain'
  exact ⟨⟨_, _, _, hblocks, hblocks', map_unlinked_render _ _ _ _⟩,
    ⟨_, _, _, hchain, hchain', map_unlinked_frees _ _ _ _⟩⟩

omit hg in
/-- Bytes of the blocks in front of what is cut and behind it are not written. -/
theorem Becomes.get_beside {ts' : List Tile} (hb : s.Becomes s' ts') (hs' : s'.Sound ts')
    {below below' rest above : List Block} (hblocks : s'.blocks = below' ++ b :: (rest ++ above))
    (hbelow : below'.map Block.unlinked = below.map Block.unlinked) {c : Block} (hc : c ∈ below ∨ c ∈ above)
    {i : Nat} (hi : c.Uses g i) : s'.arena.memory.get i = s.arena.memory.get i := by
  refine hb.get_uses hs' ?_ hi
  rw [hblocks, List.map_append, List.mem_append, hbelow]
  rcases hc with hin | hin
  · exact Or.inl (List.mem_map_of_mem hin)
  · exact Or.inr (List.mem_map_of_mem (List.mem_cons_of_mem _ (List.mem_append_right _ hin)))

theorem Becomes.serves {pre post : List Tile} {t : Tile} (hs : s.Sound (pre ++ t :: post)) (ht : t.free = true)
    (hn : n ≤ t.size) (hb : s.Becomes s' (pre ++ (carve g t.size n ++ post)))
    (hs' : s'.Sound (pre ++ (carve g t.size n ++ post))) : s.Serves (s.block (.ofNat (span g.front pre))) n s' := by
  have hblock := hs.shows.block_eq
  rw [Tile.header_free ht] at hblock
  have hs₀ : s.Sound (pre ++ ([t] ++ post)) := hs
  obtain ⟨⟨below, below', above, hblocks, hblocks', hbelow⟩, hchain⟩ :=
    Becomes.recut hg hs₀ rfl hn hs' hblock.symm
  rw [frees_free ht, firstFree_nil, ← hblock] at hchain
  rw [render_cons, render_nil, Tile.header_free ht, firstFree_nil, ← hblock, List.singleton_append] at hblocks
  refine ⟨hb.frame.base, hb.frame.layout, ⟨_, _, _, hblocks, hblocks', hbelow⟩, hchain, ?_⟩
  intro c hc hne i hi
  rw [hblocks, List.mem_append, List.mem_cons] at hc
  refine hb.get_beside hs' hblocks' hbelow ?_ hi
  exact hc.imp_right fun hc => hc.resolve_left hne

/-- `firstFit` cuts the lowest block that is large enough. -/
theorem Sound.firstFit_lowest (hs : s.Sound ts) (hb : s.Lowest n b) (hgrid : g.grid ∣ n) (hpos : 0 < n) :
    ∃ s', s.firstFit (.ofNat n) = some (b.offset, s') ∧ s.Serves b n s' ∧
      s'.block b.offset = (b.cut g n).1 := by
  obtain ⟨pre, t, post, rfl, ht, hle, hsmall, rfl⟩ := hb.split hs
  obtain ⟨s', hfirst, hbecomes⟩ := firstFit_eq_some hg hs.shows hs.proper ht hle hsmall
  have hs' := hs.becomes hbecomes
    (Proper.carve hg hs.proper.left hs.proper.right ht (hs.proper.grid t (by simp)) hgrid hpos hle)
  have hserves := hbecomes.serves hg hs ht hle hs'
  refine ⟨s', hfirst, hserves, ?_⟩
  obtain ⟨below, below', above, -, hblocks', -⟩ := hserves.blocks
  have hmem : (Block.cut g (s.block (.ofNat (span g.front pre))) n).1 ∈ s'.blocks := by
    rw [hblocks']
    exact List.mem_append_right _ List.mem_cons_self
  rw [← Block.offset_cut g (s.block (.ofNat (span g.front pre))) n]
  exact hs'.shows.block_of_mem hs'.proper hmem

end Exact

end BlockSpace

/-! ## Requests -/

namespace Allocator

variable {g : Geometry} {s : BlockSpace g} {ts : List Tile} {size : UInt64}

/-- The four ways in which `acquire` ends. -/
theorem acquire_outcome (hg : g.Exact) (hs : s.Sound ts) (store : BackingStore) (size : UInt64) :
    (size = 0 ∧ acquire ⟨store, some s⟩ size = (.error .zeroSize, ⟨store, some s⟩)) ∨
      (s.capacity < size ∧
        acquire ⟨store, some s⟩ size = (.error (.tooLarge size s.capacity), ⟨store, some s⟩)) ∨
      (size ≠ 0 ∧ size ≤ s.capacity ∧ (∀ b, ¬ s.Fits (g.need size) b) ∧
        acquire ⟨store, some s⟩ size = (.error (.exhausted size), ⟨store, some s⟩)) ∨
      (size ≠ 0 ∧ size ≤ s.capacity ∧ ∃ b s', s.Lowest (g.need size) b ∧ s.Serves b (g.need size) s' ∧
        acquire ⟨store, some s⟩ size =
          (.ok ⟨s.address b.offset, (b.cut g (g.need size)).1.size⟩, ⟨store, some s'⟩)) := by
  by_cases hzero : size = 0
  · refine Or.inl ⟨hzero, ?_⟩
    simp only [acquire, Geometry.alignedSize, if_pos hzero]
  by_cases hlarge : s.capacity < size
  · refine Or.inr (Or.inl ⟨hlarge, ?_⟩)
    simp only [acquire, Geometry.alignedSize, if_neg hzero, if_pos hlarge]
  have hle : size ≤ s.capacity := UInt64.not_lt.mp hlarge
  have haligned := g.alignedSize_of_le hzero hle s.capacity_lt
  have hneed := g.need_lt hle s.capacity_lt
  refine Or.inr (Or.inr ?_)
  rcases hs.lowest_or (g.need size) with hnone | ⟨b, hb⟩
  · refine Or.inl ⟨hzero, hle, hnone, ?_⟩
    simp only [acquire, haligned, hs.firstFit_none hneed hnone]
  · obtain ⟨s', hfirst, hserves, hblock⟩ :=
      hs.firstFit_lowest hg hb (dvd_leastMultiple _ _) (Geometry.need_pos hzero)
    refine Or.inr ⟨hzero, hle, b, s', hb, hserves, ?_⟩
    have haddress : s'.address b.offset = s.address b.offset := by
      unfold BlockSpace.address
      rw [Arena.addressOf, hserves.base, Arena.addressOf]
    simp only [acquire, haligned, hfirst, tokenAt, hblock, haddress]

end Allocator

/-! ## Worlds -/

namespace World

variable {geometry : Nat → Geometry} {hostOf : Nat → Nat} {w : World geometry hostOf} {k : Nat}
  {s : BlockSpace (geometry k)} {size : UInt64}

/-- A request is served by the free block `b`: the holder of `t` has the front of it, on the grid and with
no more than it needs but for a surplus that is no block, and `s'` is the space after. What is left of `b`
is free and holds a least block. -/
structure Grants (w : World geometry hostOf) (k : Nat) (s : BlockSpace (geometry k)) (size : UInt64) (b : Block)
    (t : Token) (s' : BlockSpace (geometry k)) : Prop where
  lowest : s.Lowest ((geometry k).need size) b
  serves : s.Serves b ((geometry k).need size) s'
  performs : w.perform (.acquire k size) = (.token (.ok t),
    (w.setAllocator k ⟨(w.allocators k).store, some s'⟩).setTokens k (t :: w.held k) (w.leaked k))
  address : t.address = s.address b.offset
  position : s.arena.position t.address = b.offset.toNat + (geometry k).front ∧
    (geometry k).grid ∣ s.arena.position t.address
  usable : t.size = (b.cut (geometry k) ((geometry k).need size)).1.size ∧
    t.size.toNat = if (geometry k).splitThreshold.toNat ≤ b.size.toNat - (geometry k).need size then
      (geometry k).need size else b.size.toNat
  bounds : size.toNat ≤ (geometry k).need size ∧ (geometry k).need size ≤ t.size.toNat ∧
    t.size.toNat < (geometry k).need size + (geometry k).splitThreshold.toNat
  rest : ∀ r ∈ (b.cut (geometry k) ((geometry k).need size)).2, r.header.isFree = true ∧
    r.size.toNat = b.size.toNat - (geometry k).need size - (geometry k).headerSize.toNat ∧
    (geometry k).minimumBlock.toNat ≤ r.size.toNat

/-- What a request of `size` bytes gets from allocator `k`, whose blocks are those of `s`. It is refused if
it is empty, if it is above the capacity, or if no free block has as many bytes as it needs, and nothing
changes then. Otherwise the lowest free block that has so many is cut. -/
structure FirstFit (w : World geometry hostOf) (k : Nat) (s : BlockSpace (geometry k)) (size : UInt64) :
    Prop where
  zeroSize : (w.perform (.acquire k size)).1 = .token (.error .zeroSize) ↔ size = 0
  tooLarge : (w.perform (.acquire k size)).1 = .token (.error (.tooLarge size s.capacity)) ↔
    s.capacity < size
  exhausted : (w.perform (.acquire k size)).1 = .token (.error (.exhausted size)) ↔
    size ≠ 0 ∧ size ≤ s.capacity ∧ ∀ b, ¬ s.Fits ((geometry k).need size) b
  largest : size ≠ 0 → ∃ usage, (w.perform (.usage k)).1 = .usage (.ok usage) ∧
    ((∀ b, ¬ s.Fits ((geometry k).need size) b) ↔ usage.largestFree.toNat < (geometry k).need size)
  refused : ∀ fault, (w.perform (.acquire k size)).1 = .token (.error fault) →
    (w.perform (.acquire k size)).2 = w ∧
      (fault = .zeroSize ∨ fault = .tooLarge size s.capacity ∨ fault = .exhausted size)
  granted : size ≠ 0 → size ≤ s.capacity → (∃ b, s.Fits ((geometry k).need size) b) →
    ∃ b t s', w.Grants k s size b t s'

/-- A block that is cut for a request grants it. -/
theorem grants_of_serves (hg : (geometry k).Exact) {ts : List Tile} (hs : s.Sound ts) {b : Block}
    {s' : BlockSpace (geometry k)} (hb : s.Lowest ((geometry k).need size) b)
    (hserves : s.Serves b ((geometry k).need size) s')
    (hacquire : (w.allocators k).acquire size =
      (.ok ⟨s.address b.offset, (b.cut (geometry k) ((geometry k).need size)).1.size⟩,
        ⟨(w.allocators k).store, some s'⟩)) :
    w.Grants k s size b ⟨s.address b.offset, (b.cut (geometry k) ((geometry k).need size)).1.size⟩ s' := by
  have hoffset := (hs.bounds_block hb.fits.mem).2.1
  have hposition := hs.position_block hb.fits.mem
  refine ⟨hb, hserves, ?_, rfl, ⟨hposition, ?_⟩, ⟨rfl, Block.toNat_size_cut _ b hb.fits.large⟩,
    ⟨le_leastMultiple (geometry k).grid_pos _, Block.cut_bounds hg hb.fits.large⟩,
    fun r hr => Block.cut_rest hg hr⟩
  · simp only [perform, hacquire]
  · rw [hposition]
    exact Nat.dvd_add hoffset (geometry k).front_dvd

theorem perform_acquire_error {fault : Fault}
    (he : (w.allocators k).acquire size = (.error fault, w.allocators k)) :
    w.perform (.acquire k size) = (.token (.error fault), w) := by
  simp only [perform, he, setAllocator_self]

/-- In every reachable world, requests get the first fit. -/
theorem Reachable.acquires_first_fit {stores : Nat → BackingStore} (hg : ∀ k, (geometry k).Exact)
    (h : Reachable stores w) (hs : (w.allocators k).space = some s) (size : UInt64) :
    w.FirstFit k s size := by
  obtain ⟨entries, n, hw⟩ := h.sound hg
  obtain ⟨ts, hsound⟩ := (hw.lends k).sound hs
  have hlargest (hsize : size ≠ 0) : ∃ usage, (w.perform (.usage k)).1 = .usage (.ok usage) ∧
      ((∀ b, ¬ s.Fits ((geometry k).need size) b) ↔ usage.largestFree.toNat < (geometry k).need size) := by
    refine ⟨s.usage, ?_, s.largestFree_lt (Geometry.need_pos hsize)⟩
    simp only [perform, Allocator.usage, hs]
  have houtcome := Allocator.acquire_outcome (hg k) hsound (w.allocators k).store size
  have ha : ⟨(w.allocators k).store, some s⟩ = w.allocators k := by rw [← hs]
  rw [ha] at houtcome
  rcases houtcome with ⟨rfl, he⟩ | ⟨hlarge, he⟩ | ⟨hsize, hle, hnone, he⟩ |
    ⟨hsize, hle, b, s', hb, hserves, he⟩
  · have hperform := perform_acquire_error he
    refine ⟨?_, ?_, ?_, hlargest, ?_, ?_⟩
    all_goals simp [hperform]
  · have hperform := perform_acquire_error he
    have hsize : size ≠ 0 := by
      rintro rfl
      exact absurd hlarge UInt64.not_lt_zero
    refine ⟨?_, ?_, ?_, hlargest, ?_, ?_⟩
    all_goals simp [hperform, hsize, hlarge, UInt64.not_le.mpr hlarge]
  · have hperform := perform_acquire_error he
    refine ⟨?_, ?_, ?_, hlargest, ?_, ?_⟩
    all_goals simp [hperform, hsize, hle, hnone, UInt64.not_lt.mpr hle]
  · have hgrants := grants_of_serves (hg k) hsound hb hserves he
    have hfits : ∃ b, s.Fits ((geometry k).need size) b := ⟨b, hb.fits⟩
    refine ⟨?_, ?_, ?_, hlargest, ?_, fun _ _ _ => ⟨b, _, s', hgrants⟩⟩
    all_goals simp [hgrants.performs, hsize, hle, hfits, UInt64.not_lt.mpr hle]

theorem tiny_first_fit : ∃ s, (tiny.allocators 0).space = some s ∧ tiny.FirstFit 0 s 40 := by
  obtain ⟨s, hs⟩ := tiny_space
  exact ⟨s, hs, tiny_reachable.acquires_first_fit (fun _ => Geometry.standard_exact) hs 40⟩

end World

end ArenaHeap
