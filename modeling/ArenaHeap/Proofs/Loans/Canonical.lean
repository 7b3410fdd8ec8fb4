import ArenaHeap.Proofs.Loans.Allocator
import Mathlib.Data.List.Perm.Basic

/-!
# What the blocks that are handed out determine

* `Shape` : the blocks, the free chain and its head;
* `BlockSpace.pairs` : offset and size of each block that is handed out;
* `Shape.canonical` : the shape with some pairs, in which each gap is one free block;
* `Sound.shape_eq` : a sound space has the canonical shape of its pairs (`Sound.shape_congr`);
* `BlockSpace.Twins` : two spaces that show the same tiling of one place;
* `Lends.pairs_perm` : the pairs are those of the tokens that are lent;
* `Sound.reclaims` : blocks that are taken back in any order;
* `Lends.twins` : who lends the same tokens from the same place shows the same tiling;
* `Lends.acquire_congr` : what is handed out next depends on the tokens and the place alone.
-/

namespace ArenaHeap

open Tiling

/-- The blocks in physical order, the free chain and its head. -/
structure Shape where
  blocks : List Block
  freeChain : List Block
  head : Option UInt64
deriving DecidableEq

namespace Shape

/-- The shape in which exactly the given pairs of offset and size are handed out, in ascending order, and
each gap in front of, between or behind them is one free block. -/
def canonical (g : Geometry) (capacity : UInt64) (pairs : List (UInt64 × UInt64)) : Shape :=
  let ts := Tiling.canonical g.front capacity.toNat 0 (pairs.map fun p => (p.1.toNat, p.2.toNat))
  ⟨render g.front 0 ts none, frees g.front 0 ts none, firstFree g.front 0 ts none⟩

/-- The shape of a single free block. -/
def single (g : Geometry) (capacity : UInt64) : Shape :=
  ⟨[⟨0, .free (capacity - g.headerSize) none⟩], [⟨0, .free (capacity - g.headerSize) none⟩], some 0⟩

end Shape

namespace BlockSpace

variable {g : Geometry} {s s' : BlockSpace g} {ts ts' : List Tile}

/-- The shape of a space. -/
def shape (s : BlockSpace g) : Shape := ⟨s.blocks, s.freeChain, s.head⟩

/-- Offset and usable size of each block that is handed out, in physical order. -/
def pairs (s : BlockSpace g) : List (UInt64 × UInt64) := s.allocated.map fun b => (b.offset, b.size)

/-- The token of a pair. -/
def pairToken (s : BlockSpace g) (p : UInt64 × UInt64) : Token := ⟨s.address p.1, p.2⟩

/-! ## Shapes -/

theorem Sound.pairs_eq (hs : s.Sound ts) :
    s.pairs = (live g.front 0 ts).map fun p => (.ofNat p.1, .ofNat p.2) := by
  unfold pairs
  rw [hs.allocated_eq, List.map_map]
  rfl

theorem Sound.live_eq (hs : s.Sound ts) :
    live g.front 0 ts = s.pairs.map fun p => (p.1.toNat, p.2.toNat) := by
  have hcap := s.capacity_lt
  rw [hs.pairs_eq, List.map_map]
  refine (List.map_id _).symm.trans (List.map_congr_left ?_)
  intro p hp
  have hle := (hs.bounds hp).1
  simp only [Function.comp_apply, id_eq]
  rw [Word.toNat_ofNat (by omega), Word.toNat_ofNat (by omega)]

theorem Sound.tiling_eq (hs : s.Sound ts) : ts =
    Tiling.canonical g.front s.capacity.toNat 0 (s.pairs.map fun p => (p.1.toNat, p.2.toNat)) := by
  rw [← hs.live_eq]
  exact eq_canonical hs.proper (by rw [Nat.zero_add, hs.shows.covers])

theorem Shows.shape_eq (hs : s.Shows ts) (hp : Proper g ts) :
    s.shape = ⟨render g.front 0 ts none, frees g.front 0 ts none, firstFree g.front 0 ts none⟩ := by
  unfold shape
  rw [hs.blocks_eq hp, hs.freeChain_eq hp, hs.head]

/-- The shape of a single free tile. -/
theorem Shows.shape_single (hs : s.Shows [⟨s.capacity.toNat - g.front, true⟩])
    (hp : Proper g [⟨s.capacity.toNat - g.front, true⟩]) (hroom : g.front ≤ s.capacity.toNat) :
    s.shape = Shape.single g s.capacity := by
  have hword : UInt64.ofNat (s.capacity.toNat - g.front) = s.capacity - g.headerSize := by
    rw [headerSize_eq, UInt64.ofNat_sub hroom, UInt64.ofNat_toNat]
  rw [hs.shape_eq hp, render_cons, frees_free rfl, firstFree_free rfl, Tile.header_free rfl]
  simp only [hword, render_nil, frees_nil, firstFree_nil]
  rfl

theorem Sound.shape_tiling (hs : s.Sound ts) :
    s.shape = ⟨render g.front 0 ts none, frees g.front 0 ts none, firstFree g.front 0 ts none⟩ :=
  hs.shows.shape_eq hs.proper

/-- A sound space has the canonical shape of its pairs. -/
theorem Sound.shape_eq (hs : s.Sound ts) : s.shape = Shape.canonical g s.capacity s.pairs := by
  rw [hs.shape_tiling, Shape.canonical, ← hs.tiling_eq]

theorem Sound.pairs_ascending (hs : s.Sound ts) : s.pairs.Pairwise fun p q => p.1 < q.1 := by
  have hpos := g.le_front
  have hcap := s.capacity_lt
  have hlive := live_pairwise (h := g.front) 0 ts
  rw [hs.live_eq, List.pairwise_map] at hlive
  apply hlive.imp
  intro p q hle
  rw [UInt64.lt_iff_toNat_lt]
  omega

theorem Sound.pairs_nodup (hs : s.Sound ts) : s.pairs.Nodup :=
  hs.pairs_ascending.imp fun {p q} hlt he => by
    rw [he] at hlt
    exact UInt64.lt_irrefl _ hlt

theorem Sound.pairs_congr (hs : s.Sound ts) (hs' : s'.Sound ts') (hperm : s'.pairs.Perm s.pairs) :
    s'.pairs = s.pairs :=
  List.Perm.eq_of_pairwise (fun _ _ _ _ hlt hgt => absurd hlt (UInt64.lt_asymm hgt)) hs'.pairs_ascending
    hs.pairs_ascending hperm

theorem Sound.tiling_congr (hs : s.Sound ts) (hs' : s'.Sound ts') (hcapacity : s'.capacity = s.capacity)
    (hperm : s'.pairs.Perm s.pairs) : ts' = ts := by
  rw [hs.tiling_eq, hs'.tiling_eq, hcapacity, hs.pairs_congr hs' hperm]

theorem Sound.shape_congr (hs : s.Sound ts) (hs' : s'.Sound ts') (hcapacity : s'.capacity = s.capacity)
    (hperm : s'.pairs.Perm s.pairs) : s'.shape = s.shape := by
  rw [hs.shape_eq, hs'.shape_eq, hcapacity, hs.pairs_congr hs' hperm]

theorem Sound.shape_single (hs : s.Sound ts) (hnone : s.pairs = []) :
    s.shape = Shape.single g s.capacity := by
  have hts := hs.tiling_eq
  rw [hnone, List.map_nil, Tiling.canonical, if_pos hs.nonempty, Nat.sub_zero] at hts
  subst hts
  have hpos := hs.proper.pos _ List.mem_cons_self
  simp only at hpos
  exact hs.shows.shape_single hs.proper (by omega)

/-! ## Twins -/

/-- Two spaces of one place show the same tiling: they differ in bytes that hold no header. -/
structure Twins (s s' : BlockSpace g) (ts : List Tile) : Prop where
  left : s.Sound ts
  right : s'.Sound ts
  base : s'.arena.base = s.arena.base
  layout : s'.arena.layout = s.arena.layout

theorem Twins.token (h : s.Twins s' ts) : s'.token = s.token := token_congr h.base

theorem Twins.shape_eq (h : s.Twins s' ts) : s'.shape = s.shape := by
  rw [h.right.shape_tiling, h.left.shape_tiling]

/-! ## Pairs and tokens -/

theorem map_pairToken (s : BlockSpace g) : s.pairs.map s.pairToken = s.allocated.map s.loan := by
  unfold pairs
  rw [List.map_map]
  rfl

theorem pairToken_injective (s : BlockSpace g) : Function.Injective s.pairToken := by
  rintro ⟨o, n⟩ ⟨o', n'⟩ he
  obtain ⟨haddress, hsize⟩ := Token.mk.inj he
  simp only at haddress hsize
  rw [address, address, Arena.addressOf, Arena.addressOf, UInt64.add_right_inj, UInt64.add_left_inj] at haddress
  rw [haddress, hsize]

theorem pairToken_congr (hbase : s'.arena.base = s.arena.base) : s'.pairToken = s.pairToken := by
  funext p
  rw [pairToken, pairToken, address, address, Arena.addressOf, Arena.addressOf, hbase]

/-! ## Taking back in any order -/

theorem Sound.reclaim_pair (hs : s.Sound ts) {p : UInt64 × UInt64} (hp : p ∈ s.pairs) :
    ∃ ts', (s.reclaim p.1).Sound ts' ∧ (s.reclaim p.1).capacity = s.capacity ∧
      s.pairs.Perm (p :: (s.reclaim p.1).pairs) := by
  rw [hs.pairs_eq, List.mem_map] at hp
  obtain ⟨q, hq, rfl⟩ := hp
  obtain ⟨ts', hb, hs', hlive⟩ := hs.reclaim hq
  refine ⟨ts', hs', hb.frame.capacity, ?_⟩
  rw [hs.pairs_eq, hs'.pairs_eq]
  exact hlive.map _

/-- Blocks that are taken back one after the other are missing from the pairs. -/
theorem Sound.reclaims {L rest : List (UInt64 × UInt64)} (hs : s.Sound ts) (hL : s.pairs.Perm (L ++ rest)) :
    ∃ ts', (L.foldl (fun s p => s.reclaim p.1) s).Sound ts' ∧
      (L.foldl (fun s p => s.reclaim p.1) s).capacity = s.capacity ∧
      (L.foldl (fun s p => s.reclaim p.1) s).pairs.Perm rest := by
  induction L generalizing s ts with
  | nil => exact ⟨ts, hs, rfl, hL⟩
  | cons p L ih =>
    obtain ⟨ts', hs', hcapacity, hperm⟩ := hs.reclaim_pair (hL.mem_iff.mpr List.mem_cons_self)
    obtain ⟨ts'', hs'', hcapacity', hrest⟩ := ih hs' (hperm.symm.trans hL).cons_inv
    exact ⟨ts'', hs'', hcapacity'.trans hcapacity, hrest⟩

end BlockSpace

/-! ## Allocators -/

namespace Allocator

variable {g : Geometry} {a a' : Allocator g} {toks toks' : List Token} {s s' : BlockSpace g} {ts : List Tile}

theorem Lends.pairs (h : a.Lends toks) (hs : a.space = some s) : toks.Perm (s.pairs.map s.pairToken) := by
  rw [s.map_pairToken]
  exact h.allocated hs

theorem Lends.pairs_perm (h : a.Lends toks) (h' : a'.Lends toks') (hs : a.space = some s)
    (hs' : a'.space = some s') (hbase : s'.arena.base = s.arena.base) {L : List (UInt64 × UInt64)}
    (hperm : toks.Perm (L.map s.pairToken ++ toks')) : s.pairs.Perm (L ++ s'.pairs) := by
  have hpairs := h'.pairs hs'
  rw [BlockSpace.pairToken_congr hbase] at hpairs
  apply (List.map_perm_map_iff s.pairToken_injective).mp
  rw [List.map_append]
  exact (h.pairs hs).symm.trans (hperm.trans (hpairs.append_left _))

theorem Lends.shape_congr (h : a.Lends toks) (h' : a'.Lends toks') (hs : a.space = some s)
    (hs' : a'.space = some s') (hextent : a'.extent = a.extent) (hperm : toks.Perm toks') :
    s'.shape = s.shape := by
  simp only [extent, hs, hs', Option.map_some, Option.some.injEq, Prod.mk.injEq] at hextent
  obtain ⟨ts, hsound⟩ := h.sound hs
  obtain ⟨ts', hsound'⟩ := h'.sound hs'
  have hpairs := @pairs_perm _ _ _ _ _ _ _ h h' hs hs' hextent.1 [] hperm
  exact hsound.shape_congr hsound' (congrArg Layout.size hextent.2) hpairs.symm

/-- Allocators that lend the same tokens from the same arena show one tiling of it. -/
theorem Lends.twins (h : a.Lends toks) (h' : a'.Lends toks') (hextent : a'.extent = a.extent)
    (hperm : toks.Perm toks') : (∃ store store', a = ⟨store, none⟩ ∧ a' = ⟨store', none⟩) ∨
      ∃ store store' s s' ts, a = ⟨store, some s⟩ ∧ a' = ⟨store', some s'⟩ ∧ s.Twins s' ts := by
  obtain ⟨store, _ | s⟩ := a
  · obtain ⟨store', _ | s'⟩ := a'
    · exact Or.inl ⟨store, store', rfl, rfl⟩
    · cases hextent
  · obtain ⟨store', _ | s'⟩ := a'
    · cases hextent
    · obtain ⟨ts, hs⟩ := h.sound rfl
      obtain ⟨ts', hs'⟩ := h'.sound rfl
      simp only [extent, Option.map_some, Option.some.injEq, Prod.mk.injEq] at hextent
      have hcapacity : s'.capacity = s.capacity := congrArg Layout.size hextent.2
      have hpairs := @pairs_perm _ _ _ _ _ _ _ h h' rfl rfl hextent.1 [] hperm
      have htiling := hs.tiling_congr hs' hcapacity hpairs.symm
      exact Or.inr ⟨store, store', s, s', ts, rfl, rfl, hs, htiling ▸ hs', hextent.1, hextent.2⟩

/-- What is handed out next depends on what is lent and on the place of the arena. -/
theorem Lends.acquire_congr (hg : g.Exact) (h : a.Lends toks) (h' : a'.Lends toks')
    (hextent : a'.extent = a.extent) (hperm : toks.Perm toks') (size : UInt64) :
    (a'.acquire size).1 = (a.acquire size).1 := by
  rcases h.twins h' hextent hperm with ⟨store, store', rfl, rfl⟩ | ⟨store, store', s, s', ts, rfl, rfl, htwins⟩
  · rfl
  rcases acquire_uniform hg htwins.left.proper size with ⟨fault, hrefused⟩ | ⟨p, ts', -, -, hacquire⟩
  · rw [hrefused store s htwins.left, hrefused store' s' htwins.right]
  · obtain ⟨s₁, he, -⟩ := hacquire store s htwins.left
    obtain ⟨s₁', he', -⟩ := hacquire store' s' htwins.right
    rw [he, he', htwins.token]

end Allocator

end ArenaHeap
