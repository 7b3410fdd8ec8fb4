import ArenaHeap.BlockSpace.Edit
import ArenaHeap.Proofs.Tiling.Edit
import ArenaHeap.Proofs.Tiling.Space

/-!
# Replacing tiles of a space

* `Block.unlinked` : a block without its link, which is all that depends on what follows a tiling;
* `lastFree` : the offset of the last free tile, whose link is redirected (`shows_redirect`);
* `BlockSpace.Becomes` : a space that shows a new tiling, with only headers of the new tiling written;
* `Shows.splice` : tiles in the middle are replaced by others of the same span;
* `handOut_spec` : what `handOut` writes is the carved block.
-/

namespace ArenaHeap

open Tiling

variable {g : Geometry} {pre mid mid' post ts : List Tile}

/-! ## Blocks without their links -/

/-- The block without its link, which belongs to the chain. -/
def Block.unlinked (b : Block) : Block := { b with header.next := Header.nil }

namespace Tiling

variable {h : Nat}

theorem map_unlinked_render (o : Nat) (ts : List Tile) (link link' : Option UInt64) :
    (render h o ts link).map Block.unlinked = (render h o ts link').map Block.unlinked := by
  induction ts generalizing o with
  | nil => rfl
  | cons t ts ih =>
    have hhead (next next' : Option UInt64) :
        Block.unlinked ⟨.ofNat o, t.header next⟩ = Block.unlinked ⟨.ofNat o, t.header next'⟩ := by
      obtain ⟨m, _ | _⟩ := t <;> rfl
    rw [render_cons, render_cons, List.map_cons, List.map_cons, ih, hhead]

theorem map_unlinked_frees (o : Nat) (ts : List Tile) (link link' : Option UInt64) :
    (frees h o ts link).map Block.unlinked = (frees h o ts link').map Block.unlinked := by
  have hfilter (bs : List Block) : (bs.filter (·.header.isFree)).map Block.unlinked =
      (bs.map Block.unlinked).filter (·.header.isFree) := by
    rw [List.filter_map]
    rfl
  unfold frees
  rw [hfilter, hfilter, map_unlinked_render o ts link link']

theorem map_offset_frees (o : Nat) (ts : List Tile) (link link' : Option UInt64) :
    (frees h o ts link).map Block.offset = (frees h o ts link').map Block.offset := by
  have hunlinked := congrArg (List.map Block.offset) (map_unlinked_frees (h := h) o ts link link')
  rw [List.map_map, List.map_map] at hunlinked
  exact hunlinked

/-! ## The last free tile -/

/-- The offset of the last free tile. -/
def lastFree (h : Nat) (ts : List Tile) : Option UInt64 :=
  (frees h 0 ts none).getLast?.map Block.offset

theorem getLast?_frees (ts : List Tile) (link : Option UInt64) :
    (frees h 0 ts link).getLast?.map Block.offset = lastFree h ts := by
  unfold lastFree
  rw [← List.getLast?_map, ← List.getLast?_map, map_offset_frees 0 ts link none]

theorem lastFree_of_live (hl : ∀ t ∈ ts, t.free = false) : lastFree h ts = none := by
  unfold lastFree
  rw [frees_of_live hl]
  rfl

theorem lastFree_mid {t : Tile} (ht : t.free = true) (hl : ∀ u ∈ post, u.free = false) :
    lastFree h (pre ++ t :: post) = some (.ofNat (span h pre)) := by
  unfold lastFree
  rw [frees_append, frees_free ht, frees_of_live hl, Nat.zero_add]
  simp

end Tiling

theorem Memory.bears_setHeader (m : Memory) (o : UInt64) (hd : Header) :
    (m.setHeader o hd).Bears [⟨o, hd⟩] :=
  bears_cons.mpr ⟨header_setHeader m o hd, Bears.nil _⟩

theorem Memory.Bears.setHeader_mid {m : Memory} {o : Nat} {t : Tile} {link link' : Option UInt64}
    (hend : o + span g.front (pre ++ t :: post) < 2 ^ 64)
    (hpre : m.Bears (render g.front o pre link))
    (hpost : m.Bears (render g.front (o + span g.front pre + (g.front + t.size)) post link'))
    (hd : Header) : (m.setHeader (.ofNat (o + span g.front pre)) hd).Bears (render g.front o pre link ++
      ⟨.ofNat (o + span g.front pre), hd⟩ ::
        render g.front (o + span g.front pre + (g.front + t.size)) post link') := by
  have hfront := g.le_front
  rw [span_append, span_cons] at hend
  rw [bears_append, bears_cons]
  refine ⟨hpre.render_setHeader (by omega) (by omega) (Or.inr ?_), header_setHeader _ _ _,
    hpost.render_setHeader (by omega) (by omega) (Or.inl ?_)⟩
  · exact Nat.le_refl _
  · omega

namespace BlockSpace

variable {s s₁ : BlockSpace g}

/-! ## Redirecting -/

/-- At the last free tile of a space, or at its head, `redirect` writes the link that the tiles behind
call for. -/
theorem redirect_mid {t : Tile} {link next : Option UInt64} (ht : t.free = true)
    (hm : s.arena.memory.Bears (render g.front 0 (pre ++ t :: post) link)) :
    s.redirect (some (.ofNat (span g.front pre))) next =
      s.write ⟨.ofNat (span g.front pre), .free (.ofNat t.size) next⟩ := by
  have hmem := mem_render_mid (h := g.front) 0 pre t post link
  rw [Nat.zero_add] at hmem
  have hheader := hm _ hmem
  rw [redirect, block_eq_of_header hheader, Tile.header_free ht]
  rfl

theorem shows_redirect {link : Option UInt64}
    (hcovers : span g.front (pre ++ post) = s.capacity.toNat)
    (hhead : s.head = firstFree g.front 0 pre link)
    (hpre : s.arena.memory.Bears (render g.front 0 pre link))
    (hpost : s.arena.memory.Bears (render g.front (span g.front pre) post none)) :
    (s.redirect (lastFree g.front pre) (firstFree g.front (span g.front pre) post none)).Shows
      (pre ++ post) := by
  have hcap := s.capacity_lt
  rcases last_free pre with hl | ⟨p, t, q, rfl, ht, hl⟩
  · rw [lastFree_of_live hl]
    refine ⟨hcovers, ?_, ?_⟩
    · rw [firstFree_append, firstFree_of_live hl, Nat.zero_add]
      rfl
    · rw [render_append, Nat.zero_add, Memory.bears_append, render_of_live hl _ _ link]
      exact ⟨hpre, hpost⟩
  · rw [lastFree_mid ht hl, redirect_mid ht hpre]
    have hfirst (next : Option UInt64) : firstFree g.front 0 (p ++ t :: q) next =
        firstFree g.front 0 p (some (.ofNat (span g.front p))) := by
      rw [firstFree_append, firstFree_free ht, Nat.zero_add]
    refine ⟨?_, ?_, ?_⟩
    · rw [hcovers, capacity_write]
    · rw [head_write, hhead, hfirst, firstFree_append _ (p ++ t :: q), hfirst]
    · rw [render_append, render_cons, firstFree_free ht, Nat.zero_add, Memory.bears_append,
        Memory.bears_cons] at hpre
      obtain ⟨hp, -, hq⟩ := hpre
      have hseam : 0 + span g.front p + (g.front + t.size) + span g.front q =
          span g.front (p ++ t :: q) := by
        rw [span_append, span_cons]; omega
      have hbehind : s.arena.memory.Bears
          (render g.front (0 + span g.front p + (g.front + t.size)) (q ++ post) none) := by
        rw [render_append, hseam, Memory.bears_append, render_of_live hl _ _ link, Nat.zero_add]
        exact ⟨hq, hpost⟩
      have hmid := hp.setHeader_mid ?_ hbehind (t.header (firstFree g.front
        (span g.front p + (g.front + t.size)) (q ++ post) none))
      · rw [Nat.zero_add] at hmid hseam
        rw [memory_write, List.append_assoc, List.cons_append, render_append, render_cons,
          firstFree_free ht, Nat.zero_add]
        rw [firstFree_append, firstFree_of_live hl, hseam, Tile.header_free ht] at hmid ⊢
        exact hmid
      · simp only [span_append, span_cons] at hcovers ⊢
        omega

theorem frame_redirect (hspan : span g.front pre < 2 ^ 64) (next : Option UInt64) :
    s.Frame (s.redirect (lastFree g.front pre) next) (HeaderCell g.front 0 pre) := by
  rcases last_free pre with hl | ⟨p, t, q, rfl, ht, hl⟩
  · rw [lastFree_of_live hl]
    exact ⟨rfl, rfl, fun _ _ => rfl⟩
  · rw [lastFree_mid ht hl]
    have hfront := g.le_front
    rw [span_append, span_cons] at hspan
    refine (frame_write s (by omega) _).mono fun i hi => headerCell_mid t ?_ ?_
    · omega
    · omega

/-! ## Splicing -/

/-- A space that shows the tiling `ts` after headers of it, and nothing else, were written. -/
structure Becomes (s s' : BlockSpace g) (ts : List Tile) : Prop where
  shows : s'.Shows ts
  frame : s.Frame s' (HeaderCell g.front 0 ts)

/-- A tiling in the middle is replaced by one of the same span, and the chain is redirected to it. -/
theorem Shows.splice (hs : s.Shows (pre ++ (mid ++ post))) (hspan : span g.front mid' = span g.front mid)
    (hframe : s.Frame s₁ (HeaderCell g.front (span g.front pre) mid')) (hhead : s₁.head = s.head)
    (hmid : s₁.arena.memory.Bears (render g.front (span g.front pre) mid'
      (firstFree g.front (span g.front pre + span g.front mid') post none))) :
    s.Becomes (s₁.redirect (lastFree g.front pre)
      (firstFree g.front (span g.front pre) (mid' ++ post) none)) (pre ++ (mid' ++ post)) := by
  have hlt := hs.span_lt
  have hcovers := hs.covers
  have hfront := g.le_front
  have hheaders := hs.headers
  simp only [span_append] at hlt hcovers
  rw [render_append, render_append, Memory.bears_append, Memory.bears_append, Nat.zero_add,
    ← hspan] at hheaders
  obtain ⟨hpre, -, hpost⟩ := hheaders
  -- Only headers of `mid'` were written so far, so that the tiles around it stand as they did.
  have hkept (i : Nat) (hi : i < span g.front pre ∨ span g.front pre + span g.front mid' ≤ i) :
      s₁.arena.memory.get i = s.arena.memory.get i := by
    apply hframe.get i
    intro hcell
    have hbounds := hcell.bounds hfront
    omega
  have hlink : s₁.head = firstFree g.front 0 pre
      (firstFree g.front (span g.front pre) (mid ++ post) none) := by
    rw [hhead, hs.head, firstFree_append, Nat.zero_add]
  constructor
  · refine shows_redirect ?_ hlink ?_ ?_
    · rw [hframe.capacity, span_append, span_append, hspan]
      exact hcovers
    · exact hpre.render_congr (by omega) fun i _ hi => hkept i (Or.inl (by omega))
    · rw [render_append, Memory.bears_append]
      exact ⟨hmid, hpost.render_congr (by omega) fun i hi _ => hkept i (Or.inr hi)⟩
  · refine Frame.trans (hframe.mono ?_) ((frame_redirect (by omega) _).mono ?_)
    · intro i hi
      rw [← List.append_assoc]
      refine HeaderCell.append_right (HeaderCell.append_left ?_) post
      rw [Nat.zero_add]
      exact hi
    · intro i hi
      exact hi.append_right _

/-! ## Handing out -/

section Exact

variable (hg : g.Exact)
include hg

theorem le_splitThreshold {size n : Nat} (hsize : size < 2 ^ 64) (hn : n ≤ size) :
    g.splitThreshold ≤ .ofNat size - .ofNat n ↔ g.front + g.least ≤ size - n := by
  rw [← UInt64.ofNat_sub hn, UInt64.le_iff_toNat_le, Geometry.toNat_splitThreshold hg,
    Word.toNat_ofNat (by omega)]

/-- What `handOut` writes is the carved block, and what it answers is the first free tile of it, or else
the link that the block had. -/
theorem handOut_spec (s : BlockSpace g) {o size n : Nat} {next : Option UInt64}
    (hend : o + (g.front + size) < 2 ^ 63) (hn : n ≤ size) (hnext : next ≠ some Header.nil) :
    ∃ s₁, s.handOut ⟨.ofNat o, .free (.ofNat size) next⟩ (.ofNat n) =
        (s₁, firstFree g.front o (carve g size n) next) ∧
      s.Frame s₁ (HeaderCell g.front o (carve g size n)) ∧ s₁.head = s.head ∧
      s₁.arena.memory.Bears (render g.front o (carve g size n) next) := by
  have hfront := g.le_front
  have hsplit := le_splitThreshold hg (show size < 2 ^ 64 by omega) hn
  have hnext? := Header.next?_free (.ofNat size) hnext
  unfold carve
  by_cases hroom : g.front + g.least ≤ size - n
  · have hrest : UInt64.ofNat o + g.headerSize + .ofNat n = .ofNat (o + (g.front + n)) := by
      rw [headerSize_eq, UInt64.add_assoc, ← UInt64.ofNat_add, ← UInt64.ofNat_add]
    have hsurplus : UInt64.ofNat size - .ofNat n - g.headerSize = .ofNat (size - n - g.front) := by
      rw [headerSize_eq, ← UInt64.ofNat_sub hn, ← UInt64.ofNat_sub (by omega)]
    rw [if_pos hroom]
    refine ⟨(s.write ⟨.ofNat (o + (g.front + n)), .free (.ofNat (size - n - g.front)) next⟩).write
      ⟨.ofNat o, .allocated (.ofNat n)⟩, ?_, ?_, ?_, ?_⟩
    · simp only [handOut, Block.size_free, hsplit.mpr hroom, ↓reduceIte]
      rw [hrest, hsurplus, hnext?, firstFree_live rfl, firstFree_free rfl]
    · refine Frame.trans ((frame_write s (by omega) _).mono ?_) ((frame_write _ (by omega) _).mono ?_)
      · intro i hi
        exact ⟨[⟨n, false⟩], _, [], rfl, hi⟩
      · intro i hi
        exact ⟨[], _, _, rfl, hi⟩
    · rw [head_write, head_write]
    · have hwritten := Memory.bears_setHeader s.arena.memory (.ofNat (o + (g.front + n)))
        (.free (.ofNat (size - n - g.front)) next)
      rw [memory_write, memory_write]
      refine @Memory.Bears.setHeader_mid g [] [⟨size - n - g.front, true⟩] _ o ⟨n, false⟩ none next ?_
        (Memory.Bears.nil _) hwritten _
      simp only [List.nil_append, span_cons, span_nil]
      omega
  · rw [if_neg hroom]
    refine ⟨s.write ⟨.ofNat o, .allocated (.ofNat size)⟩, ?_, ?_, ?_, ?_⟩
    · simp only [handOut, Block.size_free, mt hsplit.mp hroom, ↓reduceIte]
      rw [hnext?, firstFree_live rfl, firstFree_nil]
    · exact (frame_write s (by omega) _).mono fun i hi => ⟨[], _, [], rfl, hi⟩
    · rw [head_write]
    · rw [memory_write]
      exact Memory.bears_setHeader _ _ _

end Exact

end BlockSpace

end ArenaHeap
