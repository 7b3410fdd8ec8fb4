import ArenaHeap.BlockSpace.Usage
import ArenaHeap.Proofs.Loans.Space
import Mathlib.Algebra.BigOperators.Group.List.Basic
import Mathlib.Algebra.GroupWithZero.Nat

/-!
# What usage tells

The walk counts in words, and the blocks fill the arena, so no count wraps.

* `Block.bytes` : the usable bytes of some blocks;
* `Usage.foldl_add`, `Usage.largestFree_foldl_lt` : fields that add up over some blocks, and the one that is a
  maximum;
* `Sound.freeChain_eq`, `Sound.covers` : the chain is made of the free blocks, and all blocks with their headers
  fill the arena;
* `Sound.free_le` : no two free blocks are neighbours, so there is at most one more of them;
* `Sound.usage_tells` : what `usage` tells are the numbers of the blocks.
-/

namespace ArenaHeap

open Tiling

/-- The usable bytes of some blocks. -/
def Block.bytes (bs : List Block) : Nat := (bs.map fun b => b.size.toNat).sum

theorem Block.bytes_append (as bs : List Block) : bytes (as ++ bs) = bytes as + bytes bs := by
  unfold bytes
  rw [List.map_append, List.sum_append]

theorem Block.bytes_cons (b : Block) (bs : List Block) : bytes (b :: bs) = b.size.toNat + bytes bs := rfl

/-! ## Folds -/

namespace Usage

variable {g : Geometry}

/-- A field to which each block of one kind adds its weight. -/
theorem foldl_add (field : Usage → UInt64) (kind : Block → Bool) (weight : Block → Nat)
    (hstep : ∀ u b, field (add g u b) = field u + if kind b then .ofNat (weight b) else 0) (bs : List Block)
    (u : Usage) : field (bs.foldl (add g) u) = field u + .ofNat (((bs.filter kind).map weight).sum) := by
  induction bs generalizing u with
  | nil => exact (UInt64.add_zero _).symm
  | cons b bs ih =>
    rw [List.foldl_cons, ih, hstep]
    cases hkind : kind b with
    | true =>
      rw [if_pos rfl, List.filter_cons_of_pos hkind, List.map_cons, List.sum_cons, UInt64.ofNat_add,
        UInt64.add_assoc]
    | false => rw [if_neg Bool.false_ne_true, List.filter_cons_of_neg (by simp [hkind]), UInt64.add_zero]

theorem add_fields (g : Geometry) (u : Usage) (b : Block) :
    (add g u b).capacity = u.capacity ∧
      (add g u b).allocatedBlocks = u.allocatedBlocks + (if !b.header.isFree then .ofNat 1 else 0) ∧
      (add g u b).allocatedBytes = u.allocatedBytes + (if !b.header.isFree then .ofNat b.size.toNat else 0) ∧
      (add g u b).freeBlocks = u.freeBlocks + (if b.header.isFree then .ofNat 1 else 0) ∧
      (add g u b).freeBytes = u.freeBytes + (if b.header.isFree then .ofNat b.size.toNat else 0) ∧
      (add g u b).overhead = u.overhead + .ofNat g.front := by
  unfold add Geometry.front
  cases b.header.isFree with
  | true => simp
  | false => simp

theorem capacity_foldl (g : Geometry) (bs : List Block) (u : Usage) :
    (bs.foldl (add g) u).capacity = u.capacity := by
  induction bs generalizing u with
  | nil => rfl
  | cons b bs ih => rw [List.foldl_cons, ih, (add_fields g u b).1]

theorem largestFree_foldl_lt (g : Geometry) (n : Nat) (bs : List Block) (u : Usage) :
    (bs.foldl (add g) u).largestFree.toNat < n ↔
      u.largestFree.toNat < n ∧ ∀ b ∈ bs, b.header.isFree = true → b.size.toNat < n := by
  induction bs generalizing u with
  | nil => simp
  | cons b bs ih =>
    rw [List.foldl_cons, ih, List.forall_mem_cons, ← and_assoc, and_congr_left_iff]
    intro _
    unfold add
    cases hfree : b.header.isFree with
    | true =>
      have hmax : (max u.largestFree b.size).toNat = max u.largestFree.toNat b.size.toNat := by
        rw [show max u.largestFree b.size = if u.largestFree ≤ b.size then b.size else u.largestFree from rfl,
          Nat.max_def, apply_ite UInt64.toNat]
        rfl
      rw [if_pos rfl]
      simp only [hmax, forall_const]
      exact Nat.max_lt
    | false => simp

end Usage

/-! ## Tilings -/

namespace Tiling

variable {g : Geometry} {h : Nat}

theorem span_eq (h : Nat) (ts : List Tile) : span h ts = h * ts.length + (ts.map Tile.size).sum := by
  induction ts with
  | nil => rfl
  | cons t ts ih =>
    rw [span_cons, ih, List.length_cons, List.map_cons, List.sum_cons, Nat.mul_succ]
    omega

theorem bytes_render {o : Nat} {ts : List Tile} (hend : o + span h ts < 2 ^ 64) (link : Option UInt64) :
    Block.bytes (render h o ts link) = (ts.map Tile.size).sum := by
  induction ts generalizing o with
  | nil => rfl
  | cons t ts ih =>
    rw [span_cons] at hend
    rw [render_cons, Block.bytes_cons, ih (by omega), Block.size, Tile.size_header, Word.toNat_ofNat (by omega),
      List.map_cons, List.sum_cons]

/-- Between two free tiles there is one that is handed out. -/
theorem countP_free_le {ts : List Tile} (hts : ts.IsChain fun a b => ¬(a.free = true ∧ b.free = true)) :
    ts.countP Tile.free ≤ ts.countP (fun t => !t.free) + if ts.head?.any Tile.free then 1 else 0 := by
  induction ts with
  | nil => exact Nat.le_refl 0
  | cons t ts ih =>
    have hrest := ih (List.IsChain.of_cons hts)
    rw [List.head?_cons, Option.any_some]
    cases ht : t.free with
    | false =>
      rw [List.countP_cons_of_neg (by simp [ht]), List.countP_cons_of_pos (by simp [ht])]
      split at hrest <;> omega
    | true =>
      have hhead : ts.head?.any Tile.free = false := by
        cases ts with
        | nil => rfl
        | cons u ts =>
          have hnot := (List.isChain_cons_cons.mp hts).1
          simpa [ht] using hnot
      rw [hhead, if_neg Bool.false_ne_true] at hrest
      rw [List.countP_cons_of_pos ht, List.countP_cons_of_neg (by simp [ht]), if_pos rfl]
      omega

end Tiling

/-! ## Spaces -/

namespace BlockSpace

variable {g : Geometry} {s : BlockSpace g} {ts : List Tile}

/-- The chain is made of the free blocks, in physical order. -/
theorem Sound.freeChain_eq (hs : s.Sound ts) : s.freeChain = s.blocks.filter (·.header.isFree) := by
  rw [hs.shows.freeChain_eq hs.proper, hs.shows.blocks_eq hs.proper]
  rfl

theorem Sound.allocated_eq_filter (hs : s.Sound ts) : s.allocated = s.blocks.filter (!·.header.isFree) := by
  apply List.filter_congr
  intro b hb
  rw [hs.isFree_block hb, Bool.not_not]

/-- Every block is handed out or in the chain. -/
theorem Sound.blocks_perm (hs : s.Sound ts) : (s.freeChain ++ s.allocated).Perm s.blocks := by
  rw [hs.freeChain_eq, hs.allocated_eq_filter]
  exact List.filter_append_perm _ _

theorem Sound.map_isFree (hs : s.Sound ts) : s.blocks.map (·.header.isFree) = ts.map Tile.free := by
  rw [hs.shows.blocks_eq hs.proper, map_isFree_render]

/-- The blocks and their headers fill the arena. -/
theorem Sound.covers (hs : s.Sound ts) :
    Block.bytes s.allocated + Block.bytes s.freeChain + g.front * (s.allocated.length + s.freeChain.length) =
      s.capacity.toNat := by
  have hlt := hs.shows.span_lt
  have hlength := hs.blocks_perm.length_eq
  have hbytes : Block.bytes (s.freeChain ++ s.allocated) = Block.bytes s.blocks :=
    (hs.blocks_perm.map _).sum_eq
  have hblocks := congrArg List.length hs.map_isFree
  rw [List.length_map, List.length_map] at hblocks
  rw [hs.shows.blocks_eq hs.proper, bytes_render (by omega), Block.bytes_append] at hbytes
  rw [List.length_append, hblocks] at hlength
  rw [← hs.shows.covers, span_eq, ← hbytes, ← hlength, Nat.add_comm s.freeChain.length]
  omega

theorem Sound.length_freeChain (hs : s.Sound ts) : s.freeChain.length = ts.countP Tile.free := by
  have hcount := congrArg (List.countP id) hs.map_isFree
  rw [List.countP_map, List.countP_map] at hcount
  rw [hs.freeChain_eq, ← List.countP_eq_length_filter]
  exact hcount

theorem Sound.length_allocated (hs : s.Sound ts) : s.allocated.length = ts.countP fun t => !t.free := by
  have hcount := congrArg (List.countP not) hs.map_isFree
  rw [List.countP_map, List.countP_map] at hcount
  rw [hs.allocated_eq_filter, ← List.countP_eq_length_filter]
  exact hcount

theorem Sound.free_le (hs : s.Sound ts) : s.freeChain.length ≤ s.allocated.length + 1 := by
  have hle := countP_free_le hs.proper.apart
  rw [hs.length_freeChain, hs.length_allocated]
  split at hle <;> omega

/-- What an occupation tells are the numbers of the blocks of a space. -/
structure Tells (s : BlockSpace g) (u : Usage) : Prop where
  capacity : u.capacity = s.capacity
  allocatedBlocks : u.allocatedBlocks.toNat = s.allocated.length
  allocatedBytes : u.allocatedBytes.toNat = Block.bytes s.allocated
  freeBlocks : u.freeBlocks.toNat = s.freeChain.length
  freeBytes : u.freeBytes.toNat = Block.bytes s.freeChain
  overhead : u.overhead.toNat = g.front * (s.allocated.length + s.freeChain.length)
  largest : ∀ b ∈ s.freeChain, b.size ≤ u.largestFree
  attained : s.freeChain ≠ [] → ∃ b ∈ s.freeChain, b.size = u.largestFree
  full : u.largestFree = 0 ↔ s.freeChain = []

theorem Sound.largestFree_lt (hs : s.Sound ts) {n : Nat} (hn : 0 < n) :
    s.usage.largestFree.toNat < n ↔ ∀ b ∈ s.freeChain, b.size.toNat < n := by
  have hstart : ({ capacity := s.capacity } : Usage).largestFree.toNat < n := hn
  unfold usage
  rw [Usage.largestFree_foldl_lt, hs.freeChain_eq, and_iff_right hstart]
  simp only [List.mem_filter, and_imp]

theorem Sound.le_largestFree (hs : s.Sound ts) {b : Block} (hb : b ∈ s.freeChain) :
    b.size ≤ s.usage.largestFree := by
  by_contra hlt
  rw [UInt64.le_iff_toNat_le, Nat.not_le] at hlt
  exact Nat.lt_irrefl _ ((hs.largestFree_lt (Nat.zero_lt_of_lt hlt)).mp hlt b hb)

theorem Sound.largestFree_mem (hs : s.Sound ts) (hne : s.freeChain ≠ []) :
    ∃ b ∈ s.freeChain, b.size = s.usage.largestFree := by
  by_contra hnone
  push Not at hnone
  have hlt : ∀ b ∈ s.freeChain, b.size.toNat < s.usage.largestFree.toNat := fun b hb =>
    UInt64.lt_iff_toNat_lt.mp (UInt64.lt_of_le_of_ne (hs.le_largestFree hb) (hnone b hb))
  obtain ⟨b, hb⟩ := List.exists_mem_of_ne_nil _ hne
  have hpos := Nat.zero_lt_of_lt (hlt b hb)
  exact Nat.lt_irrefl _ ((hs.largestFree_lt hpos).mpr hlt)

theorem Sound.largestFree_eq_zero (hs : s.Sound ts) : s.usage.largestFree = 0 ↔ s.freeChain = [] := by
  constructor
  · intro hzero
    by_contra hne
    obtain ⟨b, hb, hsize⟩ := hs.largestFree_mem hne
    rw [hs.freeChain_eq, List.mem_filter] at hb
    have hpos := (hs.bounds_block hb.1).2.2.2
    rw [hsize, hzero] at hpos
    exact Nat.lt_irrefl 0 hpos
  · intro hnil
    have hlt := (hs.largestFree_lt (Nat.one_pos)).mpr (by rw [hnil]; nofun)
    exact UInt64.toNat.inj (Nat.lt_one_iff.mp hlt)

/-- A field that adds up does not wrap, if the sum fits in the arena. -/
theorem toNat_usage {field : Usage → UInt64} {kind : Block → Bool} {weight : Block → Nat}
    (hstep : ∀ u b, field (Usage.add g u b) = field u + if kind b then .ofNat (weight b) else 0)
    (hstart : field { capacity := s.capacity } = 0)
    (hle : ((s.blocks.filter kind).map weight).sum ≤ s.capacity.toNat) :
    (field s.usage).toNat = ((s.blocks.filter kind).map weight).sum := by
  have hcap := s.capacity_lt
  unfold usage
  rw [Usage.foldl_add field kind weight hstep, hstart, UInt64.zero_add, Word.toNat_ofNat (by omega)]

theorem sum_map_const (bs : List Block) (m : Nat) : (bs.map fun _ => m).sum = m * bs.length := by
  rw [List.map_const', List.sum_replicate_nat, Nat.mul_comm]

/-- What `usage` tells are the numbers of the blocks. -/
theorem Sound.usage_tells (hs : s.Sound ts) : s.Tells s.usage := by
  have hcovers := hs.covers
  have hfront := g.le_front
  have hblocks := hs.blocks_perm.length_eq
  have hpos : 1 * (s.allocated.length + s.freeChain.length) ≤
      g.front * (s.allocated.length + s.freeChain.length) := Nat.mul_le_mul_right _ (by omega)
  rw [List.length_append] at hblocks
  -- Each sum is a part of what the arena covers.
  have hlives := @toNat_usage g s Usage.allocatedBlocks (!·.header.isFree) (fun _ => 1)
    (fun u b => (Usage.add_fields g u b).2.1) rfl
  have hlent := @toNat_usage g s Usage.allocatedBytes (!·.header.isFree) (fun b => b.size.toNat)
    (fun u b => (Usage.add_fields g u b).2.2.1) rfl
  have hfrees := @toNat_usage g s Usage.freeBlocks (·.header.isFree) (fun _ => 1)
    (fun u b => (Usage.add_fields g u b).2.2.2.1) rfl
  have hidle := @toNat_usage g s Usage.freeBytes (·.header.isFree) (fun b => b.size.toNat)
    (fun u b => (Usage.add_fields g u b).2.2.2.2.1) rfl
  have hheaders := @toNat_usage g s Usage.overhead (fun _ => true) (fun _ => g.front)
    (fun u b => (Usage.add_fields g u b).2.2.2.2.2) rfl
  rw [← hs.allocated_eq_filter] at hlives hlent
  rw [← hs.freeChain_eq] at hfrees hidle
  rw [List.filter_true, sum_map_const, ← hblocks, Nat.add_comm s.freeChain.length] at hheaders
  rw [sum_map_const, Nat.one_mul] at hlives hfrees
  unfold Block.bytes at hcovers
  refine ⟨Usage.capacity_foldl g _ _, hlives (by omega), hlent (by omega), hfrees (by omega), hidle (by omega),
    hheaders (by omega), fun b hb => hs.le_largestFree hb, fun hne => hs.largestFree_mem hne,
    hs.largestFree_eq_zero⟩

end BlockSpace

end ArenaHeap
