import ArenaHeap.Proofs.Loans.Undoing
import ArenaHeap.Proofs.World.FirstFit

/-!
# The paths of resizing

* `BlockSpace.Room` : the block right behind a block is free, and large enough for the two to serve;
* `BlockSpace.Swallows` : a block grows into the one behind it, and all other blocks stay;
* `Sound.extend_room`, `Sound.extend_no_room` : `extend` lets a block grow if and only if there is room;
* `Sound.move_splits` : a move is an acquisition and a release, but for the bytes that it copies;
* `World.ResizesAlong` : what becomes of a token, on each of the four paths;
* `Reachable.resizes_by_path` : so it is in every reachable world.
-/

namespace ArenaHeap

open Tiling

/-! ## Growing where it is -/

/-- The usable cells of a block are among those of the larger one that it becomes. -/
theorem Block.Uses.cut {g : Geometry} (hg : g.Exact) {b c : Block} {n i : Nat} (hi : b.Uses g i)
    (hmore : b.size.toNat ≤ n) (hn : n ≤ (b.absorb g c).size.toNat) : ((b.absorb g c).cut g n).1.Uses g i := by
  have hcut := (Block.cut_bounds hg hn).1
  have hoffset : ((b.absorb g c).cut g n).1.offset = b.offset := Block.offset_cut g _ n
  unfold Block.Uses at hi ⊢
  rw [hoffset]
  omega

namespace BlockSpace

variable {g : Geometry} {s s' : BlockSpace g} {pre post rest ts : List Tile} {t : Tile} {b c : Block} {m n : Nat}

/-- The block `c` is the first of those that follow `b`. It is free, and the two hold `n` usable bytes together. -/
structure Room (g : Geometry) (b : Block) (above : List Block) (n : Nat) (c : Block) : Prop where
  next : above.head? = some c
  free : c.header.isFree = true
  large : n ≤ b.size.toNat + g.front + c.size.toNat

/-- The block `b` swallows the free block `c` right behind it, and is cut as the one free block would be that
covers the two. All other blocks stay with their bytes, and `b` keeps its own; at most the block that was linked
to `c` is linked anew. -/
structure Swallows (s : BlockSpace g) (b c : Block) (n : Nat) (s' : BlockSpace g) : Prop where
  base : s'.arena.base = s.arena.base
  layout : s'.arena.layout = s.arena.layout
  covers : (b.absorb g c).size.toNat = b.size.toNat + g.front + c.size.toNat
  blocks : ∃ below below' above, s.blocks = below ++ b :: c :: above ∧
    s'.blocks = below' ++ ((b.absorb g c).cut g n).1 :: (((b.absorb g c).cut g n).2.toList ++ above) ∧
    below'.map Block.unlinked = below.map Block.unlinked
  chain : ∃ below below' above, s.freeChain = below ++ c :: above ∧
    s'.freeChain = below' ++ (((b.absorb g c).cut g n).2.toList ++ above) ∧
    below'.map Block.unlinked = below.map Block.unlinked
  bytes : ∀ d ∈ s.blocks, d ≠ c → ∀ i, d.Uses g i → s'.arena.memory.get i = s.arena.memory.get i

theorem Sound.room (hs : s.Sound (pre ++ t :: post)) (hc : Room g (s.block (.ofNat (span g.front pre)))
      (render g.front (span g.front pre + (g.front + t.size)) post none) n c) :
    ∃ m rest, post = ⟨m, true⟩ :: rest ∧ n ≤ t.size + g.front + m ∧
      c = s.block (.ofNat (span g.front pre + (g.front + t.size))) := by
  have hlt := hs.shows.span_lt
  cases post with
  | nil => cases hc.next
  | cons u rest =>
    have hnext := Option.some.inj hc.next
    rw [← hs.shows.block_behind] at hnext
    obtain rfl := hnext
    have hfree := hc.free
    have hlarge := hc.large
    rw [span_append, span_cons, span_cons] at hlt
    rw [hs.shows.block_behind, Tile.isFree_header] at hfree
    rw [hs.shows.size_block, hs.shows.block_behind, Block.size, Tile.size_header, Word.toNat_ofNat (by omega),
      Word.toNat_ofNat (by omega)] at hlarge
    obtain ⟨m, _⟩ := u
    simp only at hfree
    exact ⟨m, rest, by rw [hfree], hlarge, rfl⟩

theorem Sound.room_mid (hs : s.Sound (pre ++ t :: ⟨m, true⟩ :: rest)) (hn : n ≤ t.size + g.front + m) :
    Room g (s.block (.ofNat (span g.front pre)))
      (render g.front (span g.front pre + (g.front + t.size)) (⟨m, true⟩ :: rest) none) n
      (s.block (.ofNat (span g.front pre + (g.front + t.size)))) := by
  have hlt := hs.shows.span_lt
  rw [span_append, span_cons, span_cons] at hlt
  refine ⟨?_, ?_, ?_⟩
  · rw [hs.shows.block_behind]
    rfl
  · rw [hs.shows.block_behind, Tile.isFree_header]
  · rw [hs.shows.size_block, hs.shows.block_behind, Block.size, Tile.size_header, Word.toNat_ofNat (by omega),
      Word.toNat_ofNat (by simp only at hlt ⊢; omega)]
    exact hn

section Exact

variable (hg : g.Exact)
include hg

theorem size_cut {size : Nat} (hsize : size < 2 ^ 64) (o : UInt64) (next : Option UInt64) :
    (Block.cut g ⟨o, .free (.ofNat size) next⟩ n).1.size = .ofNat (granted g size n) := by
  unfold Block.cut granted
  rw [Block.size_free, Word.toNat_ofNat hsize, Geometry.toNat_splitThreshold hg]
  split
  · rfl
  · rfl

theorem Sound.extend_room (hs : s.Sound (pre ++ t :: ⟨m, true⟩ :: rest)) (ht : t.free = false)
    (hgrid : g.grid ∣ n) (hmore : t.size < n) (hn : n ≤ t.size + g.front + m)
    (hb : s.block (.ofNat (span g.front pre)) = b)
    (hc : s.block (.ofNat (span g.front pre + (g.front + t.size))) = c) :
    ∃ s', s.extend (.ofNat (span g.front pre)) (.ofNat n) = some (((b.absorb g c).cut g n).1.size, s') ∧
      s.Swallows b c n s' := by
  have hfront := g.le_front
  have hlt := hs.shows.span_lt
  rw [span_append, span_cons, span_cons] at hlt
  simp only at hlt
  have hseam : span g.front pre + (g.front + t.size) + (g.front + m) =
      span g.front pre + (g.front + (t.size + g.front + m)) := by omega
  have hsize := hs.shows.size_block
  have hblock := hs.shows.block_eq
  have hbehind : c = ⟨.ofNat (span g.front pre + (g.front + t.size)), .free (.ofNat m)
      (firstFree g.front (span g.front pre + (g.front + t.size) + (g.front + m)) rest none)⟩ :=
    hc.symm.trans hs.shows.block_behind
  have habsorb := hs.shows.absorb_behind
  rw [hb] at hsize hblock
  rw [Tile.header_live ht] at hblock
  rw [hb, hc, hseam] at habsorb
  obtain ⟨s', he, hbecomes⟩ := extend_becomes hg hs.shows hs.proper ht hmore hn
  have hs' := hs.becomes hbecomes (hs.proper.swallow hg hgrid (by omega) hn)
  have hs₀ : s.Sound (pre ++ ([t, ⟨m, true⟩] ++ rest)) := hs
  obtain ⟨⟨below, below', above, hblocks, hblocks', hbelow⟩, hchain⟩ :=
    Becomes.recut hg hs₀ (by simp only [span_cons, span_nil]; omega) hn hs' habsorb.symm
  rw [render_cons, render_cons, render_nil, Tile.header_live ht, Tile.header_free rfl, firstFree_nil, ← hseam,
    ← hblock, ← hbehind, List.cons_append, List.singleton_append] at hblocks
  rw [frees_live ht, frees_free rfl, frees_nil, firstFree_nil, ← hseam, ← hbehind] at hchain
  have hgrant := size_cut (n := n) hg (show t.size + g.front + m < 2 ^ 64 by omega) (.ofNat (span g.front pre))
    (firstFree g.front (span g.front pre + (g.front + (t.size + g.front + m))) rest none)
  rw [← habsorb] at hgrant
  rw [← hgrant] at he
  have hown : b.size.toNat = t.size := by rw [hsize, Word.toNat_ofNat (by omega)]
  have hother : c.size.toNat = m := by rw [hbehind, Block.size_free, Word.toNat_ofNat (by omega)]
  have hcovers : (b.absorb g c).size.toNat = b.size.toNat + g.front + c.size.toNat := by
    rw [habsorb, Block.size_free, Word.toNat_ofNat (by omega), hown, hother]
  refine ⟨s', he, hbecomes.frame.base, hbecomes.frame.layout, hcovers, ⟨_, _, _, hblocks, hblocks', hbelow⟩,
    hchain, ?_⟩
  intro d hd hne i hi
  rw [hblocks, List.mem_append, List.mem_cons, List.mem_cons] at hd
  rcases hd with hin | rfl | rfl | hin
  · exact hbecomes.get_beside hs' hblocks' hbelow (Or.inl hin) hi
  · refine hbecomes.get_uses hs' (c := ((d.absorb g c).cut g n).1) ?_ (hi.cut hg (by omega) (by omega))
    rw [hblocks']
    exact List.mem_map_of_mem (List.mem_append_right _ List.mem_cons_self)
  · exact absurd rfl hne
  · exact hbecomes.get_beside hs' hblocks' hbelow (Or.inr hin) hi

theorem Sound.extend_no_room (hs : s.Sound (pre ++ t :: post)) (ht : t.free = false) (hn : n < 2 ^ 64)
    (hmore : t.size < n) (hnone : ∀ c, ¬ Room g (s.block (.ofNat (span g.front pre)))
      (render g.front (span g.front pre + (g.front + t.size)) post none) n c) :
    s.extend (.ofNat (span g.front pre)) (.ofNat n) = none := by
  rcases extend_cases hg hs.proper ht hn with ⟨hle, -⟩ | ⟨-, -, hrefused⟩ | ⟨m, rest, rfl, -, hle, -⟩
  · omega
  · exact hrefused s hs.shows
  · exact absurd (hs.room_mid hle) (hnone _)

end Exact

/-! ## Taking back in twins -/

/-- Twins that take the same block back stay twins, and differ where they did. -/
theorem Twins.reclaim (h : s.Twins s' ts) {p : Nat × Nat} (hp : p ∈ live g.front 0 ts) {W : Nat → Prop}
    (hf : s.Frame s' W) : ∃ ts', (s.reclaim (.ofNat p.1)).Twins (s'.reclaim (.ofNat p.1)) ts' ∧
      (s.reclaim (.ofNat p.1)).Frame (s'.reclaim (.ofNat p.1)) W := by
  obtain ⟨pre, t, post, rfl, ht, rfl⟩ := mem_live hp
  rw [Nat.zero_add]
  obtain ⟨hb, hs⟩ := h.left.reclaim_mid ht
  obtain ⟨hb', hs'⟩ := h.right.reclaim_mid ht
  have hframe := hb.frame_alike hb' hf
  exact ⟨_, ⟨hs, hs', hframe.base, hframe.layout⟩, hframe⟩

end BlockSpace

/-! ## What an allocator does -/

namespace Allocator

open BlockSpace

variable {g : Geometry} {s s' : BlockSpace g} {ts : List Tile} {p : Nat × Nat} {size : UInt64}

/-- A block that is large enough is let be. -/
theorem resize_fits (store : BackingStore) (hs : s.Sound ts) (hp : p ∈ live g.front 0 ts) (hsize : size ≠ 0)
    (hfit : g.need size ≤ p.2) :
    resize ⟨store, some s⟩ (some (s.token p)) size = (.ok (some (s.token p)), ⟨store, some s⟩) := by
  have hle : size ≤ s.capacity := by
    have hneed := le_leastMultiple g.grid_pos size.toNat
    have hbound := (hs.bounds hp).1
    rw [UInt64.le_iff_toNat_le]
    unfold Geometry.need at hfit
    omega
  obtain ⟨pre, u, post, rfl, -, rfl⟩ := mem_live hp
  have hextend := extend_of_le hs.shows hfit
  rw [← Nat.zero_add (span g.front pre)] at hextend
  exact resize_extends store hs hp hsize (g.alignedSize_of_le hsize hle s.capacity_lt) hextend

theorem move_refused (hle : size ≤ s.capacity) (hs : s.Sound ts) (hnone : ∀ c, ¬ s.Fits (g.need size) c) (t : Token)
    (offset : UInt64) : move s t offset size (.ofNat (g.need size)) = none := by
  rw [move_eq, hs.firstFit_none (g.need_lt hle s.capacity_lt) hnone, Option.map_none]

/-- A move leads to what an acquisition and a release lead to, but for the bytes that it copies. -/
theorem move_splits (hg : g.Exact) (store : BackingStore) (hs : s.Sound ts) (hp : p ∈ live g.front 0 ts)
    (hsize : size ≠ 0) (hle : size ≤ s.capacity) (hmore : p.2 < size.toNat)
    (hfits : ∃ c, s.Fits (g.need size) c) : ∃ t' s₁ s₂ s',
      acquire ⟨store, some s⟩ size = (.ok t', ⟨store, some s₁⟩) ∧
      release ⟨store, some s₁⟩ (s.token p) = (.ok (), ⟨store, some s₂⟩) ∧
      move s (s.token p) (.ofNat p.1) size (.ofNat (g.need size)) = some (t', s') ∧ t' ≠ s.token p ∧
      s'.shape = s₂.shape ∧ s₂.Frame s' fun i =>
        s.arena.position t'.address ≤ i ∧ i < s.arena.position t'.address + (s.token p).size.toNat := by
  have haligned := g.alignedSize_of_le hsize hle s.capacity_lt
  have hneed := le_leastMultiple g.grid_pos size.toNat
  have hgrid := dvd_leastMultiple g.grid size.toNat
  have hpos := Geometry.need_pos (g := g) hsize
  rcases firstFit_uniform hg hs.proper hgrid hpos (g.need_lt hle s.capacity_lt) with
    hnone | ⟨q, ts₁, hout, hq, hfirst⟩
  · obtain ⟨c, hc⟩ := hfits
    rcases hs.lowest_or (g.need size) with hno | ⟨b, hb⟩
    · exact absurd hc (hno c)
    · obtain ⟨s₁, hsome, -⟩ := hs.firstFit_lowest hg hb hgrid hpos
      have hrefused := hnone s hs.shows
      unfold Geometry.need at hsome
      rw [hrefused] at hsome
      cases hsome
  obtain ⟨s₁, hsome, hb₁⟩ := hfirst s hs.shows
  have hs₁ := hs.becomes hb₁ hout.proper
  have hp₁ := hout.mem_of hp
  have htoken := hb₁.frame.token
  have hposition : s.arena.position (s.token q).address = q.1 + g.front := by
    rw [← hs₁.position hout.mem, htoken, Arena.position, Arena.position, hb₁.frame.base]
  obtain ⟨hcopied, hcopy⟩ := hs₁.withCopy hout.mem (p.1 + g.front) (show p.2 ≤ q.2 by omega)
  obtain ⟨ts', htwins, hframe⟩ := Twins.reclaim ⟨hs₁, hcopied, rfl, rfl⟩ hp₁ hcopy
  refine ⟨s.token q, s₁, _, _, ?_, ?_, move_eq_some hs hp hmore hout (by omega) hsome hb₁, ?_, htwins.shape_eq, ?_⟩
  · have hfit : s.firstFit (.ofNat (g.need size)) = some (.ofNat q.1, s₁) := hsome
    simp only [acquire, haligned, hfit, tokenAt_eq hs₁ hout.mem, htoken]
  · rw [← htoken]
    exact release_token store hs₁ hp₁
  · intro he
    rw [← htoken] at he
    exact hout.ne hp (hs₁.token_inj hout.mem hp₁ (congrArg Token.address he)).symm
  · rw [hposition, (hs.toNat_token hp).2]
    exact hframe

end Allocator

/-! ## Worlds -/

namespace World

open BlockSpace

variable {geometry : Nat → Geometry} {hostOf : Nat → Nat} {w w' w₁ w₂ : World geometry hostOf} {k owner : Nat}
  {t t' : Token} {s s' : BlockSpace (geometry k)} {b c : Block} {size : UInt64}

/-- The block `b` of `t` grows into the free block `c` right behind it. The address stays. The size is what is
needed if the rest is a block of its own, and else all that the two cover. -/
structure GrowsInto (w : World geometry hostOf) (k : Nat) (s : BlockSpace (geometry k)) (t : Token) (size : UInt64)
    (b c : Block) (t' : Token) (s' : BlockSpace (geometry k)) : Prop where
  performs : w.perform (.resize k k (some t) size) = (.resized (.ok (some t')),
    (w.setAllocator k ⟨(w.allocators k).store, some s'⟩).setTokens k (t' :: (w.held k).erase t) (w.leaked k))
  swallows : s.Swallows b c ((geometry k).need size) s'
  address : t'.address = t.address
  usable : t'.size = ((b.absorb (geometry k) c).cut (geometry k) ((geometry k).need size)).1.size ∧
    t'.size.toNat = if (geometry k).splitThreshold.toNat ≤
        t.size.toNat + (geometry k).front + c.size.toNat - (geometry k).need size then (geometry k).need size
      else t.size.toNat + (geometry k).front + c.size.toNat
  rest : ∀ r ∈ ((b.absorb (geometry k) c).cut (geometry k) ((geometry k).need size)).2, r.header.isFree = true ∧
    r.size.toNat = t.size.toNat + (geometry k).front + c.size.toNat - (geometry k).need size -
      (geometry k).headerSize.toNat ∧ (geometry k).minimumBlock.toNat ≤ r.size.toNat

/-- The answer is the token `t'` that an acquisition of `size` bytes gets, and the world is the one in which `t` is
released then, but for the bytes of `t` that are copied to `t'`. -/
structure MovesTo (w : World geometry hostOf) (k : Nat) (s : BlockSpace (geometry k)) (t : Token) (size : UInt64)
    (t' : Token) (w₁ w₂ : World geometry hostOf) (s₂ s' : BlockSpace (geometry k)) : Prop where
  acquires : w.perform (.acquire k size) = (.token (.ok t'), w₁)
  releases : w₁.perform (.release k k t) = (.done (.ok ()), w₂)
  space : w₂.allocators k = ⟨(w.allocators k).store, some s₂⟩
  performs : w.perform (.resize k k (some t) size) =
    (.resized (.ok (some t')), w₂.setAllocator k ⟨(w.allocators k).store, some s'⟩)
  shape : s'.shape = s₂.shape
  bytes : s₂.Frame s' fun i =>
    s.arena.position t'.address ≤ i ∧ i < s.arena.position t'.address + t.size.toNat

/-- What becomes of the token `t`, whose block is `b`, if it is to have `size` bytes; the blocks behind `b` are
`above`. If it has what is needed nothing happens, and neither does if there is no room behind it and no free
block that is large enough: `t` is handed back, and the world is the same but for the place of `t` among the
tokens that are held. -/
structure ResizesAlong (w : World geometry hostOf) (k : Nat) (s : BlockSpace (geometry k)) (t : Token)
    (b : Block) (above : List Block) (size : UInt64) : Prop where
  stays : (geometry k).need size ≤ t.size.toNat → w.perform (.resize k k (some t) size) =
    (.resized (.ok (some t)), w.setTokens k (t :: (w.held k).erase t) (w.leaked k))
  grows : t.size.toNat < (geometry k).need size → ∀ c, Room (geometry k) b above ((geometry k).need size) c →
    ∃ t' s', w.GrowsInto k s t size b c t' s'
  moves : t.size.toNat < (geometry k).need size → (∀ c, ¬ Room (geometry k) b above ((geometry k).need size) c) →
    (∃ c, s.Fits ((geometry k).need size) c) → ∃ t' w₁ w₂ s₂ s', w.MovesTo k s t size t' w₁ w₂ s₂ s'
  refused : t.size.toNat < (geometry k).need size → (∀ c, ¬ Room (geometry k) b above ((geometry k).need size) c) →
    (∀ c, ¬ s.Fits ((geometry k).need size) c) → w.perform (.resize k k (some t) size) =
      (.resized (.error ⟨.exhausted size, some t⟩), w.setTokens k (t :: (w.held k).erase t) (w.leaked k))

/-- What `resize` does. Without a token it is an acquisition, and with a size of 0 a release. A token that is held
takes one of four paths. A token that was obtained stays as it is if no more than its size is asked for. -/
structure ResizesByPath (w : World geometry hostOf) (k : Nat) : Prop where
  acquires : ∀ size, ∃ result, (w.perform (.acquire k size)).1 = .token result ∧
    w.perform (.resize k k none size) =
      (.resized ((result.map some).mapError (⟨·, none⟩)), (w.perform (.acquire k size)).2)
  releases : ∀ owner t, ∃ result, (w.perform (.release k owner t)).1 = .done result ∧
    w.perform (.resize k owner (some t) 0) =
      (.resized ((result.map fun _ => none).mapError (⟨·, none⟩)), (w.perform (.release k owner t)).2)
  held : ∀ t ∈ w.held k, ∃ s below b above, (w.allocators k).space = some s ∧ s.blocks = below ++ b :: above ∧
    s.loan b = t ∧ ∀ size, size ≠ 0 → size ≤ s.capacity → w.ResizesAlong k s t b above size
  again : ∀ t? size t' w', (∀ t ∈ t?, t ∈ w.held k) →
    w.perform (.resize k k t? size) = (.resized (.ok (some t')), w') →
    ∀ m, m ≠ 0 → m ≤ t'.size → w'.perform (.resize k k (some t') m) = (.resized (.ok (some t')), w')

theorem perform_resize_none (w : World geometry hostOf) (k : Nat) (size : UInt64) :
    ∃ result, (w.perform (.acquire k size)).1 = .token result ∧ w.perform (.resize k k none size) =
      (.resized ((result.map some).mapError (⟨·, none⟩)), (w.perform (.acquire k size)).2) := by
  refine ⟨_, perform_acquire w k size, ?_⟩
  rcases he : (w.allocators k).acquire size with ⟨fault | t, a⟩
  · simp only [perform, Allocator.resize, he]
    exact congrArg (Prod.mk _) (setTokens_self (w.setAllocator k a) k)
  · simp only [perform, Allocator.resize, he]
    rfl

theorem perform_resize_zero (w : World geometry hostOf) (k owner : Nat) (t : Token) :
    ∃ result, (w.perform (.release k owner t)).1 = .done result ∧ w.perform (.resize k owner (some t) 0) =
      (.resized ((result.map fun _ => none).mapError (⟨·, none⟩)), (w.perform (.release k owner t)).2) := by
  rcases he : (w.allocators k).release t with ⟨fault | _, a⟩
  · refine ⟨.error fault, ?_, ?_⟩
    · simp only [perform, he]
    · simp only [perform, Allocator.resize, if_pos, he]
      rfl
  · refine ⟨.ok (), ?_, ?_⟩
    · simp only [perform, he]
    · simp only [perform, Allocator.resize, if_pos, he]
      rfl

theorem perform_resize_ok {t? t'? : Option Token} {a : Allocator (geometry k)}
    (he : (w.allocators k).resize t? size = (.ok t'?, a)) :
    w.perform (.resize k owner t? size) = (.resized (.ok t'?), (w.setAllocator k a).setTokens owner
      (t'?.toList ++ t?.elim (w.held owner) (w.held owner).erase) (w.leaked owner)) := by
  simp only [perform, he]

theorem perform_resize_refused {fault : Fault}
    (he : (w.allocators k).resize (some t) size = (.error ⟨fault, some t⟩, w.allocators k)) :
    w.perform (.resize k k (some t) size) =
      (.resized (.error ⟨fault, some t⟩), w.setTokens k (t :: (w.held k).erase t) (w.leaked k)) := by
  simp only [perform, he, setAllocator_self]
  rfl

theorem Sound.resize_stays {entries : Nat → List Entry} {n : Nat} (hw : w.Sound entries n) (ht : t ∈ w.held k)
    (hsize : size ≠ 0) (hfit : (geometry k).need size ≤ t.size.toNat) :
    w.perform (.resize k k (some t) size) =
      (.resized (.ok (some t)), w.setTokens k (t :: (w.held k).erase t) (w.leaked k)) := by
  obtain ⟨s, pre, u, post, ha, hs, -, hp, rfl, hu, -⟩ := hw.tile_of_held ht
  rw [hu] at hfit
  have hresize := Allocator.resize_fits (w.allocators k).store hs hp hsize hfit
  rw [← ha] at hresize
  rw [perform_resize_ok hresize, setAllocator_self]
  rfl

theorem growsInto_of_swallows (hg : (geometry k).Exact) (hsize : b.size = t.size)
    (hle : (geometry k).need size ≤ t.size.toNat + (geometry k).front + c.size.toNat)
    (hswallows : s.Swallows b c ((geometry k).need size) s')
    (hresize : (w.allocators k).resize (some t) size =
      (.ok (some ⟨t.address, ((b.absorb (geometry k) c).cut (geometry k) ((geometry k).need size)).1.size⟩),
        ⟨(w.allocators k).store, some s'⟩)) :
    w.GrowsInto k s t size b c
      ⟨t.address, ((b.absorb (geometry k) c).cut (geometry k) ((geometry k).need size)).1.size⟩ s' := by
  have hcovers := hswallows.covers
  rw [hsize] at hcovers
  rw [← hcovers] at hle
  refine ⟨perform_resize_ok hresize, hswallows, rfl, ⟨rfl, ?_⟩, fun r hr => ?_⟩
  · rw [← hcovers]
    exact Block.toNat_size_cut _ _ hle
  · rw [← hcovers]
    exact Block.cut_rest hg hr

/-- Taking a token and giving another one back changes one allocator, and the tokens from it. -/
theorem movesTo_of_splits {s₁ s₂ : BlockSpace (geometry k)}
    (hacquire : (w.allocators k).acquire size = (.ok t', ⟨(w.allocators k).store, some s₁⟩))
    (hrelease : Allocator.release ⟨(w.allocators k).store, some s₁⟩ t =
      (.ok (), ⟨(w.allocators k).store, some s₂⟩))
    (hresize : (w.allocators k).resize (some t) size = (.ok (some t'), ⟨(w.allocators k).store, some s'⟩))
    (hne : t' ≠ t) (hshape : s'.shape = s₂.shape) (hframe : s₂.Frame s' fun i =>
      s.arena.position t'.address ≤ i ∧ i < s.arena.position t'.address + t.size.toNat) :
    ∃ w₁ w₂, w.MovesTo k s t size t' w₁ w₂ s₂ s' := by
  refine ⟨(w.setAllocator k ⟨(w.allocators k).store, some s₁⟩).setTokens k (t' :: w.held k) (w.leaked k),
    (w.setAllocator k ⟨(w.allocators k).store, some s₂⟩).setTokens k (t' :: (w.held k).erase t) (w.leaked k),
    ?_, ?_, ?_, ?_, hshape, hframe⟩
  · simp only [perform, hacquire]
  · have herase : (t' :: w.held k).erase t = t' :: (w.held k).erase t :=
      List.erase_cons_tail (fun he => hne (eq_of_beq he))
    simp only [perform, setTokens, setAllocator, Function.update_self, hrelease, Function.update_idem, herase]
  · simp only [setTokens, setAllocator, Function.update_self]
  · rw [perform_resize_ok hresize]
    simp only [setTokens, setAllocator, Function.update_idem]
    rfl

theorem Sound.resizes_along {entries : Nat → List Entry} {n : Nat} (hg : (geometry k).Exact) (hw : w.Sound entries n)
    (ht : t ∈ w.held k) : ∃ s below b above, (w.allocators k).space = some s ∧ s.blocks = below ++ b :: above ∧
      s.loan b = t ∧ ∀ size, size ≠ 0 → size ≤ s.capacity → w.ResizesAlong k s t b above size := by
  obtain ⟨s, pre, u, post, ha, hs, hu, hp, rfl, hsize, hloan⟩ := hw.tile_of_held ht
  have hspace : (w.allocators k).space = some s := by rw [ha]
  refine ⟨s, _, _, _, hspace, hs.blocks_mid, hloan, fun size hne hle => ?_⟩
  have hneed := (geometry k).need_lt hle s.capacity_lt
  have haligned := (geometry k).alignedSize_of_le hne hle s.capacity_lt
  have hown : (s.block (.ofNat (span (geometry k).front pre))).size =
      (s.token (span (geometry k).front pre, u.size)).size := hs.shows.size_block
  refine ⟨hw.resize_stays ht hne, fun hmore c hc => ?_, fun hmore hnone hfits => ?_, fun hmore hnone hfull => ?_⟩
  · rw [hsize] at hmore
    have hlarge := hc.large
    rw [hown] at hlarge
    obtain ⟨m, rest, rfl, hroom, hbehind⟩ := hs.room hc
    obtain ⟨s', hextend, hswallows⟩ :=
      hs.extend_room hg hu (dvd_leastMultiple _ _) hmore hroom rfl hbehind.symm
    have hresize := Allocator.resize_extends (w.allocators k).store hs hp hne haligned hextend
    rw [← ha] at hresize
    exact ⟨_, s', growsInto_of_swallows hg hown hlarge hswallows hresize⟩
  · rw [hsize] at hmore
    have hextend := hs.extend_no_room hg hu hneed hmore hnone
    have hshort : u.size < size.toNat := by
      refine Allocator.lt_of_lt_aligned haligned (hs.proper.grid u (by simp)) ?_
      rwa [Word.toNat_ofNat hneed]
    obtain ⟨t', s₁, s₂, s', hacquire, hrelease, hmove, hne', hshape, hframe⟩ :=
      Allocator.move_splits hg (w.allocators k).store hs hp hne hle hshort hfits
    have hresize := Allocator.resize_moves (w.allocators k).store hs hp hne haligned hextend hmove
    rw [← ha] at hresize hacquire
    obtain ⟨w₁, w₂, hmoves⟩ := movesTo_of_splits hacquire hrelease hresize hne' hshape hframe
    exact ⟨t', w₁, w₂, s₂, s', hmoves⟩
  · rw [hsize] at hmore
    have hextend := hs.extend_no_room hg hu hneed hmore hnone
    have hmove := Allocator.move_refused hle hs hfull (s.token (span (geometry k).front pre, u.size))
      (.ofNat (span (geometry k).front pre))
    have hresize := Allocator.resize_refused (w.allocators k).store hs hp hne haligned hextend hmove
    rw [← ha] at hresize
    exact perform_resize_refused hresize

theorem Sound.resize_again {entries : Nat → List Entry} {n : Nat} (hw : w.Sound entries n) {rest : List Token}
    (hheld : w.held k = t :: rest) (hsize : size ≠ 0) (hle : size ≤ t.size) :
    w.perform (.resize k k (some t) size) = (.resized (.ok (some t)), w) := by
  have ht : t ∈ w.held k := by
    rw [hheld]
    exact List.mem_cons_self
  obtain ⟨s, pre, u, post, -, hs, -, -, -, hu, -⟩ := hw.tile_of_held ht
  have hgrid := hs.proper.grid u (by simp)
  rw [← hu] at hgrid
  have hfit := leastMultiple_le (geometry k).grid_pos hgrid (UInt64.le_iff_toNat_le.mp hle)
  have hsame : t :: (w.held k).erase t = w.held k := by rw [hheld, List.erase_cons_head]
  rw [hw.resize_stays ht hsize hfit, hsame, setTokens_self]

/-- In every reachable world, `resize` takes the path that is described. -/
theorem Reachable.resizes_by_path {stores : Nat → BackingStore} (hg : ∀ k, (geometry k).Exact)
    (h : Reachable stores w) (k : Nat) : w.ResizesByPath k := by
  obtain ⟨entries, n, hw⟩ := h.sound hg
  refine ⟨perform_resize_none w k, perform_resize_zero w k, fun t ht => hw.resizes_along (hg k) ht, ?_⟩
  intro t? size t' w' ht he m hm hle
  have hok : w.Allowed (.resize k k t? size) := by
    cases t? with
    | none => rfl
    | some t => exact ht t rfl
  have hw' : Reachable stores w' := by
    have hstep := h.step hok
    rwa [he] at hstep
  obtain ⟨entries', n', hsound⟩ := hw'.sound hg
  rcases hresize : (w.allocators k).resize t? size with ⟨refused | obtained, a⟩
  · simp only [perform, hresize] at he
    cases he
  · rw [perform_resize_ok hresize] at he
    cases he
    exact hsound.resize_again (Function.update_self _ _ _) hm hle

theorem tiny_resizes_by_path : (⟨4128, 32⟩ : Token) ∈ tiny.held 0 ∧ tiny.ResizesByPath 0 :=
  ⟨by decide +kernel, tiny_reachable.resizes_by_path (fun _ => Geometry.standard_exact) 0⟩

end World

end ArenaHeap
