import ArenaHeap.Proofs.World.FirstFit

/-!
# Releasing only helps

* `Sound.fits_reclaim` : a free block that is large enough is inside one that is, at no greater offset;
* `Sound.counts_reclaim` : a block that is taken back is one more free block, less its free neighbours;
* `World.Relieves` : what a release does to `usage` and to all requests that come next;
* `Reachable.release_relieves` : so it is in every reachable world.
-/

namespace ArenaHeap

open Tiling

namespace BlockSpace

variable {g : Geometry} {s : BlockSpace g} {pre post ts : List Tile} {t : Tile} {b : Block} {n : Nat}

/-! ## Taking back -/

/-- A tile is a block, which has as many free neighbours. -/
theorem Sound.split_block (hs : s.Sound (pre ++ t :: post)) :
    ∃ below above, s.blocks = below ++ s.block (.ofNat (span g.front pre)) :: above ∧
      countBeside (·.header.isFree) below above = countBeside Tile.free pre post :=
  ⟨_, _, hs.blocks_mid, countBeside_congr (map_isFree_render ..) (map_isFree_render ..)⟩

/-- What was free is inside a free block, and so is what is taken back. -/
theorem Sound.covers_reclaim (hs : s.Sound (pre ++ t :: post)) (ht : t.free = false) {p q : List Tile} {u : Tile}
    (hsplit : pre ++ t :: post = p ++ u :: q) (hu : u.free = true ∨ p = pre) :
    ∃ c, (s.reclaim (.ofNat (span g.front pre))).Fits u.size c ∧ c.offset.toNat ≤ span g.front p := by
  obtain ⟨hb, hs'⟩ := hs.reclaim_mid ht
  obtain ⟨p', v, q', hfreed, hv, hspan, hsize⟩ := freed_covers (h := g.front) hsplit hu
  have hlt := hs.shows.span_lt
  rw [hsplit, span_append] at hlt
  rw [hfreed] at hs'
  refine ⟨_, hs'.fits_mid hv hsize, ?_⟩
  show (UInt64.ofNat (span g.front p')).toNat ≤ _
  rw [Word.toNat_ofNat (by omega)]
  exact hspan

theorem Sound.fits_reclaim (hs : s.Sound (pre ++ t :: post)) (ht : t.free = false) (hb : s.Fits n b) :
    ∃ c, (s.reclaim (.ofNat (span g.front pre))).Fits n c ∧ c.offset ≤ b.offset := by
  have hlt := hs.shows.span_lt
  have hmem := hb.mem
  have hfree := hb.free
  have hlarge := hb.large
  rw [hs.shows.blocks_eq hs.proper] at hmem
  obtain ⟨p, u, q, hsplit, rfl⟩ := mem_render hmem
  rw [hsplit, span_append, span_cons] at hlt
  rw [Tile.isFree_header] at hfree
  rw [Block.size, Tile.size_header, Word.toNat_ofNat (by omega)] at hlarge
  obtain ⟨c, hc, hle⟩ := hs.covers_reclaim ht hsplit (Or.inl hfree)
  refine ⟨c, ⟨hc.mem, hc.free, hlarge.trans hc.large⟩, ?_⟩
  rw [UInt64.le_iff_toNat_le, Word.toNat_ofNat (by omega)]
  omega

theorem Sound.bytes_allocated (hs : s.Sound ts) :
    Block.bytes s.allocated = ((live g.front 0 ts).map Prod.snd).sum := by
  have hcap := s.capacity_lt
  rw [hs.allocated_eq, Block.bytes, List.map_map]
  congr 1
  apply List.map_congr_left
  intro p hp
  have hle := (hs.bounds hp).1
  exact Word.toNat_ofNat (by omega)

/-- A block that is taken back is one more free block, less those that it merges with. -/
theorem Sound.counts_reclaim (hs : s.Sound (pre ++ t :: post)) (ht : t.free = false) :
    (s.reclaim (.ofNat (span g.front pre))).freeChain.length + countBeside Tile.free pre post =
        s.freeChain.length + 1 ∧
      (s.reclaim (.ofNat (span g.front pre))).allocated.length + 1 = s.allocated.length ∧
      Block.bytes (s.reclaim (.ofNat (span g.front pre))).allocated + t.size = Block.bytes s.allocated := by
  obtain ⟨-, hs'⟩ := hs.reclaim_mid ht
  have hcount := countP_freed g.front pre t.size post
  have hlive := @live_freed_perm g.front pre post t ht
  refine ⟨?_, ?_, ?_⟩
  · rw [hs'.length_freeChain, hs.length_freeChain, List.countP_append, List.countP_cons_of_neg (by simp [ht])]
    exact hcount
  · rw [hs'.allocated_eq, hs.allocated_eq, List.length_map, List.length_map, hlive.length_eq, List.length_cons]
  · rw [hs'.bytes_allocated, hs.bytes_allocated, (hlive.map _).sum_eq, List.map_cons, List.sum_cons, Nat.add_comm]

/-- What `usage` tells after a block was taken back. -/
theorem Sound.usage_reclaim (hs : s.Sound (pre ++ t :: post)) (ht : t.free = false) :
    (s.reclaim (.ofNat (span g.front pre))).usage.freeBytes.toNat =
        s.usage.freeBytes.toNat + t.size + countBeside Tile.free pre post * g.front ∧
      (s.reclaim (.ofNat (span g.front pre))).usage.overhead.toNat + countBeside Tile.free pre post * g.front =
        s.usage.overhead.toNat ∧
      (s.reclaim (.ofNat (span g.front pre))).usage.freeBlocks.toNat + countBeside Tile.free pre post =
        s.usage.freeBlocks.toNat + 1 := by
  obtain ⟨hb, hs'⟩ := hs.reclaim_mid ht
  obtain ⟨hfree, hlive, hbytes⟩ := hs.counts_reclaim ht
  have htells := hs.usage_tells
  have htells' := hs'.usage_tells
  have hcovers := hs.covers
  have hcovers' := hs'.covers
  rw [hb.frame.capacity] at hcovers'
  have hheaders : g.front * ((s.reclaim (.ofNat (span g.front pre))).allocated.length +
      (s.reclaim (.ofNat (span g.front pre))).freeChain.length) + countBeside Tile.free pre post * g.front =
        g.front * (s.allocated.length + s.freeChain.length) := by
    rw [Nat.mul_comm _ g.front, ← Nat.mul_add]
    congr 1
    omega
  rw [htells.freeBytes, htells'.freeBytes, htells.overhead, htells'.overhead, htells.freeBlocks, htells'.freeBlocks]
  exact ⟨by omega, hheaders, hfree⟩

theorem Fits.le_largestFree (hs : s.Sound ts) (hb : s.Fits n b) : n ≤ s.usage.largestFree.toNat := by
  have hmem : b ∈ s.freeChain := by
    rw [hs.freeChain_eq]
    exact List.mem_filter.mpr ⟨hb.mem, hb.free⟩
  exact hb.large.trans (UInt64.le_iff_toNat_le.mp (hs.le_largestFree hmem))

/-- The largest free block is as large as before, and as the block that is taken back. -/
theorem Sound.largestFree_reclaim (hs : s.Sound (pre ++ t :: post)) (ht : t.free = false) :
    s.usage.largestFree.toNat ≤ (s.reclaim (.ofNat (span g.front pre))).usage.largestFree.toNat ∧
      t.size ≤ (s.reclaim (.ofNat (span g.front pre))).usage.largestFree.toNat := by
  obtain ⟨-, hs'⟩ := hs.reclaim_mid ht
  constructor
  · by_cases hnil : s.freeChain = []
    · rw [hs.largestFree_eq_zero.mpr hnil]
      exact Nat.zero_le _
    · obtain ⟨b, hb, hsize⟩ := hs.largestFree_mem hnil
      rw [hs.freeChain_eq, List.mem_filter] at hb
      obtain ⟨c, hc, -⟩ := hs.fits_reclaim ht ⟨hb.1, hb.2, Nat.le_refl _⟩
      rw [← hsize]
      exact hc.le_largestFree hs'
  · obtain ⟨c, hc, -⟩ := hs.covers_reclaim ht rfl (Or.inr rfl)
    exact hc.le_largestFree hs'

end BlockSpace

/-! ## Requests -/

namespace Allocator

variable {g : Geometry} {s s' : BlockSpace g} {ts ts' : List Tile} {t : Token} {a : Allocator g} {size : UInt64}

/-- What is served in a space is served in one where every free block is inside a free block, at no greater
offset. -/
theorem acquire_inside (hg : g.Exact) (hs : s.Sound ts) (hs' : s'.Sound ts')
    (hbase : s'.arena.base = s.arena.base) (hcapacity : s'.capacity = s.capacity)
    (hinside : ∀ n b, s.Fits n b → ∃ c, s'.Fits n c ∧ c.offset ≤ b.offset) (store : BackingStore)
    (he : acquire ⟨store, some s⟩ size = (.ok t, a)) : ∃ t' a', acquire ⟨store, some s'⟩ size = (.ok t', a') ∧
      s.arena.position t'.address ≤ s.arena.position t.address := by
  rcases acquire_outcome hg hs store size with ⟨-, h⟩ | ⟨-, h⟩ | ⟨-, -, -, h⟩ | ⟨hsize, hle, b, s₁, hb, -, h⟩
  · rw [h] at he
    cases he
  · rw [h] at he
    cases he
  · rw [h] at he
    cases he
  obtain ⟨c, hc, hlower⟩ := hinside _ b hb.fits
  rcases acquire_outcome hg hs' store size with ⟨h', -⟩ | ⟨h', -⟩ | ⟨-, -, h', -⟩ | ⟨-, -, b', s₁', hb', -, he'⟩
  · exact absurd h' hsize
  · rw [hcapacity] at h'
    exact absurd hle (UInt64.not_le.mpr h')
  · exact absurd hc (h' c)
  · refine ⟨_, _, he', ?_⟩
    have haddress : s.arena.position (s'.address b'.offset) = s'.arena.position (s'.address b'.offset) := by
      rw [Arena.position, Arena.position, hbase]
    rw [h] at he
    cases he
    rw [haddress, hs'.position_block hb'.fits.mem, hs.position_block hb.fits.mem]
    have hfirst := UInt64.le_iff_toNat_le.mp (UInt64.le_trans (hb'.first c hc) hlower)
    omega

end Allocator

/-! ## Worlds -/

namespace World

variable {geometry : Nat → Geometry} {hostOf : Nat → Nat} {w w' : World geometry hostOf} {k : Nat} {t : Token}
  {s s' : BlockSpace (geometry k)}

/-- A release of the token `t` to allocator `k` leads from `s` to `s'`. It is accepted. One more block is free, less
those right in front of it and right behind it that were free, with which it merges: their headers become usable
bytes. The largest free block is as large as before, and as the block of `t`. Whatever request was served before is
served after, at no greater offset. -/
structure Relieves (w w' : World geometry hostOf) (k : Nat) (t : Token) (s s' : BlockSpace (geometry k)) : Prop where
  performs : w.perform (.release k k t) = (.done (.ok ()), w')
  before : (w.allocators k).space = some s ∧ (w.perform (.usage k)).1 = .usage (.ok s.usage)
  after : (w'.allocators k).space = some s' ∧ (w'.perform (.usage k)).1 = .usage (.ok s'.usage)
  base : s'.arena.base = s.arena.base
  counts : ∃ below b above merged, s.blocks = below ++ b :: above ∧ s.loan b = t ∧
    merged = countBeside (·.header.isFree) below above ∧ merged ≤ 2 ∧
    s'.usage.freeBytes.toNat =
      s.usage.freeBytes.toNat + t.size.toNat + merged * (geometry k).headerSize.toNat ∧
    s'.usage.overhead.toNat + merged * (geometry k).headerSize.toNat = s.usage.overhead.toNat ∧
    s'.usage.freeBlocks.toNat + merged = s.usage.freeBlocks.toNat + 1
  largest : s.usage.largestFree ≤ s'.usage.largestFree ∧ t.size ≤ s'.usage.largestFree
  requests : ∀ size t₁, (w.perform (.acquire k size)).1 = .token (.ok t₁) →
    ∃ t₂, (w'.perform (.acquire k size)).1 = .token (.ok t₂) ∧
      s.arena.position t₂.address ≤ s.arena.position t₁.address

/-- In every reachable world, releasing a token only helps. -/
theorem Reachable.release_relieves {stores : Nat → BackingStore} (hg : ∀ k, (geometry k).Exact)
    (h : Reachable stores w) (ht : t ∈ w.held k) : ∃ w' s s', w.Relieves w' k t s s' := by
  obtain ⟨entries, n, hw⟩ := h.sound hg
  obtain ⟨s, pre, u, post, ha, hs, hu, hp, rfl, hsize, hloan⟩ := hw.tile_of_held ht
  have hspace : (w.allocators k).space = some s := by rw [ha]
  have hrelease := Allocator.release_token (w.allocators k).store hs hp
  rw [← ha] at hrelease
  obtain ⟨hb, hs'⟩ := hs.reclaim_mid hu
  obtain ⟨hlargest, hown⟩ := hs.largestFree_reclaim hu
  obtain ⟨hbytes, hoverhead, hblocks⟩ := hs.usage_reclaim hu
  obtain ⟨below, above, hsplit, hbeside⟩ := hs.split_block
  rw [← hsize] at hbytes hown
  refine ⟨(w.setAllocator k
        ⟨(w.allocators k).store, some (s.reclaim (.ofNat (span (geometry k).front pre)))⟩).setTokens k
      ((w.held k).erase (s.token (span (geometry k).front pre, u.size))) (w.leaked k),
    s, _, ?_, ⟨hspace, ?_⟩, ⟨?_, ?_⟩, hb.frame.base,
    ⟨below, _, above, _, hsplit, hloan, rfl, countBeside_le _ _ _, ?_, ?_, ?_⟩,
    ⟨UInt64.le_iff_toNat_le.mpr hlargest, UInt64.le_iff_toNat_le.mpr hown⟩, fun size t₁ he => ?_⟩
  · simp only [perform, hrelease]
  · simp only [perform, Allocator.usage, hspace]
  · simp only [setTokens, setAllocator, Function.update_self]
  · simp only [perform, Allocator.usage, setTokens, setAllocator, Function.update_self]
  · rw [hbeside]
    exact hbytes
  · rw [hbeside]
    exact hoverhead
  · rw [hbeside]
    exact hblocks
  · rw [perform_acquire] at he
    rcases hacquire : (w.allocators k).acquire size with ⟨fault | t, a⟩
    · rw [hacquire] at he
      cases he
    · rw [hacquire] at he
      cases he
      rw [ha] at hacquire
      obtain ⟨t₂, a₂, hacquire₂, hlower⟩ := Allocator.acquire_inside (hg k) hs hs' hb.frame.base hb.frame.capacity
        (fun n b hfits => hs.fits_reclaim hu hfits) (w.allocators k).store hacquire
      refine ⟨t₂, ?_, hlower⟩
      rw [perform_acquire]
      simp only [setTokens, setAllocator, Function.update_self, hacquire₂]

theorem tiny_relieves : ∃ t ∈ tiny.held 0, ∃ w' s s', tiny.Relieves w' 0 t s s' := by
  have ht : (⟨4128, 32⟩ : Token) ∈ tiny.held 0 := by decide +kernel
  exact ⟨_, ht, tiny_reachable.release_relieves (fun _ => Geometry.standard_exact) ht⟩

end World

end ArenaHeap
