import ArenaHeap.Proofs.Loans.Canonical
import ArenaHeap.Proofs.Memory

/-!
# Blocks that come and go at once

* `Shows.get_header` : a tiling determines the cells of its headers (`Becomes.frame_alike`);
* `BlockSpace.Spare` : the usable cells of the free blocks of a space;
* `Lends.acquire_undone` : a block that is acquired, written to and released again leaves its traces in such
  cells alone, and the tiling as it was.
-/

namespace ArenaHeap

open Tiling

variable {g : Geometry} {ts ts' : List Tile}

namespace BlockSpace

variable {s s' : BlockSpace g}

theorem Shows.get_header (hs : s.Shows ts) (hs' : s'.Shows ts) {i : Nat} (hi : HeaderCell g.front 0 ts i) :
    s'.arena.memory.get i = s.arena.memory.get i := by
  obtain ⟨pre, t, post, rfl, hlo, hhi⟩ := hi
  have hfront := g.le_front
  have hlt := hs.span_lt
  rw [span_append, span_cons] at hlt
  have hmem := mem_render_mid (h := g.front) 0 pre t post none
  have hheader := (hs'.headers _ hmem).trans (hs.headers _ hmem).symm
  have hcell := Memory.get_of_header hheader (k := i - span g.front pre) (by omega)
  rwa [Word.toNat_ofNat (by omega), Nat.zero_add, Nat.add_sub_cancel' (by omega)] at hcell

/-- Two spaces that become one tiling differ afterwards where they did before. -/
theorem Becomes.frame_alike {s₁ s₁' : BlockSpace g} {W : Nat → Prop} (hb : s.Becomes s₁ ts) (hb' : s'.Becomes s₁' ts)
    (hf : s.Frame s' W) : s₁.Frame s₁' W := by
  refine ⟨hb'.frame.base.trans (hf.base.trans hb.frame.base.symm),
    hb'.frame.layout.trans (hf.layout.trans hb.frame.layout.symm), ?_⟩
  intro i hi
  by_cases hheader : HeaderCell g.front 0 ts i
  · exact hb.shows.get_header hb'.shows hheader
  · rw [hb'.frame.get i hheader, hf.get i hi, hb.frame.get i hheader]

/-- A usable cell of a free block. -/
def Spare (s : BlockSpace g) (i : Nat) : Prop :=
  ∃ b ∈ s.blocks, b.header.isFree = true ∧ b.offset.toNat + g.front ≤ i ∧
    i < b.offset.toNat + g.front + b.size.toNat

theorem Sound.spare (hs : s.Sound ts) {i : Nat} (hi : Idle g.front 0 ts i) : s.Spare i := by
  obtain ⟨pre, t, post, rfl, ht, hlo, hhi⟩ := hi
  have hfront := g.le_front
  have hlt := hs.shows.span_lt
  rw [span_append, span_cons] at hlt
  have hmem := mem_render_mid (h := g.front) 0 pre t post none
  rw [← hs.shows.blocks_eq hs.proper] at hmem
  refine ⟨_, hmem, ?_, ?_⟩
  · rw [Tile.isFree_header, ht]
  · simp only [Block.size, Tile.size_header]
    rw [Word.toNat_ofNat (by omega), Word.toNat_ofNat (by omega)]
    exact ⟨hlo, hhi⟩

end BlockSpace

namespace Allocator

variable {a a₁ : Allocator g} {toks : List Token} {t : Token}

/-- A block that is acquired, written to and released again. -/
theorem Lends.acquire_undone (hg : g.Exact) (h : a.Lends toks) {size : UInt64}
    (hacquire : a.acquire size = (.ok t, a₁)) {place : Nat} {bytes : List UInt8}
    (hfit : place + bytes.length ≤ t.size.toNat) :
    ∃ s s', a.space = some s ∧
      (a₁.write (t.address + .ofNat place) bytes).release t = (.ok (), ⟨a.store, some s'⟩) ∧
      s'.shape = s.shape ∧ s.Frame s' s.Spare := by
  cases h with
  | bare store => cases hacquire
  | @lent store s ts _ hs hp =>
    rcases acquire_uniform hg hs.proper size with ⟨fault, hrefused⟩ | ⟨p, ts₁, hout, -, hok⟩
    · rw [hrefused store s hs] at hacquire
      cases hacquire
    obtain ⟨s₁, he, hb₁, hs₁⟩ := hok store s hs
    rw [he] at hacquire
    cases hacquire
    have htoken := congrFun hb₁.frame.token p
    rw [← htoken] at hfit ⊢
    rw [(hs₁.toNat_token hout.mem).2] at hfit
    obtain ⟨hs₂, hf₂⟩ := hs₁.write_bytes hout.mem hfit
    obtain ⟨s₂, he₂⟩ : ∃ s₂, ({ s₁ with arena := s₁.arena.write ((s₁.token p).address + .ofNat place) bytes } :
      BlockSpace g) = s₂ := ⟨_, rfl⟩
    rw [he₂] at hs₂ hf₂
    obtain ⟨ts₃, hb₃, hs₃, hlive₃⟩ := hs₂.reclaim hout.mem
    have hcapacity := hb₃.frame.capacity.trans (hf₂.capacity.trans hb₁.frame.capacity)
    have hpairs : (s₂.reclaim (.ofNat p.1)).pairs.Perm s.pairs := by
      rw [hs.pairs_eq, hs₃.pairs_eq]
      exact (hlive₃.symm.trans hout.lives).cons_inv.map _
    obtain rfl := hs.tiling_congr hs₃ hcapacity hpairs
    refine ⟨s, s₂.reclaim (.ofNat p.1), rfl, ?_, ?_, ?_⟩
    · have htag := hs₂.lookupByTag hout.mem
      rw [hf₂.token] at htag
      simp only [Allocator.write, he₂, Allocator.release, htag]
    · rw [hs₃.shape_tiling, hs.shape_tiling]
    · refine ⟨hb₃.frame.base.trans (hf₂.base.trans hb₁.frame.base),
        hb₃.frame.layout.trans (hf₂.layout.trans hb₁.frame.layout), ?_⟩
      -- What was written is idle now, or belongs to a header and is what it was before.
      intro i hi
      have hidle : ¬ Idle g.front 0 ts₃ i := mt hs.spare hi
      by_cases hheader : HeaderCell g.front 0 ts₃ i
      · exact hs.shows.get_header hs₃.shows hheader
      · have hfirst := hb₁.frame.get i fun hcell => (hout.headers i hcell).elim hheader hidle
        have hsecond := hf₂.get i fun hcell => hidle (hout.usable i hcell.1 hcell.2)
        have hthird := hb₃.frame.get i hheader
        exact hthird.trans (hsecond.trans hfirst)

end Allocator

end ArenaHeap
