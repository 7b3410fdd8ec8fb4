import ArenaHeap.Proofs.Tiling.Basic

/-!
# Spaces that show a tiling

* `Memory.Bears` : the headers of some blocks lie in memory (`Bears.render_congr`: a rendered tiling
  depends on the cells that it spans alone);
* `BlockSpace.Shows` : capacity, head and headers of a space are those that a tiling calls for;
* `Shows.blocks_eq`, `Shows.freeChain_eq` : the two walks visit the blocks of the tiling;
* `BlockSpace.Frame` : two spaces of one arena with the same bytes outside some cells;
* `HeaderCell`, `Usable`, `Idle` : the cells of headers, and the usable cells of some tiles and of the free
  ones (`Usable.not_headerCell`, `headerCell_append`).
-/

namespace ArenaHeap

open Tiling

/-! ## Headers in memory -/

/-- The header of each of the blocks lies in memory where the block says. -/
def Memory.Bears (m : Memory) (bs : List Block) : Prop := ∀ b ∈ bs, m.header b.offset = b.header

namespace Memory

variable {m m' : Memory} {g : Geometry}

theorem Bears.nil (m : Memory) : m.Bears [] := nofun

theorem bears_cons {b : Block} {bs : List Block} :
    m.Bears (b :: bs) ↔ m.header b.offset = b.header ∧ m.Bears bs := List.forall_mem_cons

theorem bears_append {as bs : List Block} : m.Bears (as ++ bs) ↔ m.Bears as ∧ m.Bears bs :=
  List.forall_mem_append

theorem Bears.render_congr {o : Nat} {ts : List Tile} {link : Option UInt64}
    (hm : m.Bears (render g.front o ts link)) (hend : o + span g.front ts ≤ 2 ^ 64)
    (hget : ∀ i, o ≤ i → i < o + span g.front ts → m'.get i = m.get i) :
    m'.Bears (render g.front o ts link) := by
  intro b hb
  rw [← hm b hb]
  obtain ⟨pre, t, post, rfl, rfl⟩ := mem_render hb
  have hfront := g.le_front
  simp only [span_append, span_cons] at hend hget
  refine header_congr fun k hk => hget _ ?_ ?_
  all_goals
    rw [Word.toNat_ofNat (by omega)]
    omega

/-- A header that is written behind or in front of a rendered tiling leaves it alone. -/
theorem Bears.render_setHeader {o : Nat} {ts : List Tile} {link : Option UInt64} {x : Nat} {hd : Header}
    (hm : m.Bears (render g.front o ts link)) (hend : o + span g.front ts ≤ 2 ^ 64) (hx : x < 2 ^ 64)
    (hout : x + 24 ≤ o ∨ o + span g.front ts ≤ x) :
    (m.setHeader (.ofNat x) hd).Bears (render g.front o ts link) := by
  refine hm.render_congr hend fun i hlo hhi => get_setHeader_of_ne ?_
  rw [Word.toNat_ofNat hx]
  omega

end Memory

/-! ## Showing a tiling -/

namespace BlockSpace

variable {g : Geometry} {s s' : BlockSpace g} {ts : List Tile}

/-- An arena and the padding of its end are distances. -/
theorem capacity_lt (s : BlockSpace g) : s.capacity.toNat < 2 ^ 63 := by
  have hfits : s.arena.layout.size.toNat + s.arena.layout.alignment.value.toNat ≤ 2 ^ 63 :=
    s.arena.layout.fits
  have hpos := Nat.pos_of_isPowerOfTwo s.arena.layout.alignment.isPower
  show s.arena.layout.size.toNat < 2 ^ 63
  omega

/-- Capacity, head and headers of the space are those that the tiling calls for. -/
structure Shows (s : BlockSpace g) (ts : List Tile) : Prop where
  covers : span g.front ts = s.capacity.toNat
  head : s.head = firstFree g.front 0 ts none
  headers : s.arena.memory.Bears (render g.front 0 ts none)

theorem headerSize_eq (g : Geometry) : g.headerSize = .ofNat g.front := UInt64.ofNat_toNat.symm

theorem stop_eq (g : Geometry) (o : Nat) (t : Tile) (next : Option UInt64) :
    Block.stop g ⟨.ofNat o, t.header next⟩ = .ofNat (o + (g.front + t.size)) := by
  rw [Block.stop, Block.size, Tile.size_header, headerSize_eq, UInt64.ofNat_add, UInt64.ofNat_add,
    UInt64.add_assoc]

theorem block_eq_of_header {o : UInt64} {hd : Header} (h : s.arena.memory.header o = hd) :
    s.block o = ⟨o, hd⟩ := by
  unfold block
  rw [h]

theorem blocksFrom_eq {fuel o : Nat} (hm : s.arena.memory.Bears (render g.front o ts none))
    (hspan : o + span g.front ts = s.capacity.toNat) (hfuel : ts.length ≤ fuel) :
    s.blocksFrom fuel (.ofNat o) = render g.front o ts none := by
  have hcap := s.capacity_lt
  induction ts generalizing fuel o with
  | nil =>
    have hend : UInt64.ofNat o = s.capacity := by
      rw [show o = s.capacity.toNat from hspan, UInt64.ofNat_toNat]
    cases fuel with
    | zero => rfl
    | succ fuel => rw [blocksFrom, if_pos (by rw [hend]; exact UInt64.le_refl _), render_nil]
  | cons t ts ih =>
    obtain ⟨fuel, rfl⟩ : ∃ n, fuel = n + 1 := ⟨fuel - 1, by rw [List.length_cons] at hfuel; omega⟩
    rw [render_cons, Memory.bears_cons] at hm
    rw [span_cons] at hspan
    have hfront := g.le_front
    have hlt : ¬ s.capacity ≤ .ofNat o := by
      rw [UInt64.le_iff_toNat_le, Word.toNat_ofNat (by omega)]
      omega
    rw [blocksFrom, if_neg hlt, block_eq_of_header hm.1, stop_eq, render_cons,
      ih hm.2 (by omega) (by rw [List.length_cons] at hfuel; omega)]

theorem chainFrom_eq {fuel o : Nat} (hm : s.arena.memory.Bears (render g.front o ts none))
    (hend : o + span g.front ts < 2 ^ 64) (hfuel : ts.length ≤ fuel) :
    s.chainFrom fuel (firstFree g.front o ts none) = frees g.front o ts none := by
  have hfront := g.le_front
  induction ts generalizing fuel o with
  | nil => cases fuel <;> rfl
  | cons t ts ih =>
    obtain ⟨fuel, rfl⟩ : ∃ n, fuel = n + 1 := ⟨fuel - 1, by rw [List.length_cons] at hfuel; omega⟩
    rw [render_cons, Memory.bears_cons] at hm
    rw [span_cons] at hend
    rw [List.length_cons] at hfuel
    cases ht : t.free with
    | true =>
      have hblock : s.block (.ofNat o) =
          ⟨.ofNat o, .free (.ofNat t.size) (firstFree g.front (o + (g.front + t.size)) ts none)⟩ := by
        rw [← Tile.header_free ht]
        exact block_eq_of_header hm.1
      have hlink : firstFree g.front (o + (g.front + t.size)) ts none ≠ some Header.nil :=
        firstFree_ne_nil (by omega) (by omega) nofun
      rw [firstFree_free ht, frees_free ht, chainFrom, hblock, Header.next?_free _ hlink,
        ih hm.2 (by omega) (by omega)]
    | false =>
      rw [firstFree_live ht, frees_live ht]
      exact ih hm.2 (by omega) (by omega)

namespace Shows

theorem capacity_eq (hs : s.Shows ts) : s.capacity = .ofNat (span g.front ts) := by
  rw [hs.covers, UInt64.ofNat_toNat]

theorem span_lt (hs : s.Shows ts) : span g.front ts < 2 ^ 63 := hs.covers ▸ s.capacity_lt

theorem length_le (hs : s.Shows ts) (hp : Proper g ts) : ts.length ≤ s.blockBound := by
  have hpos := g.grid_pos
  have hmul := length_mul_le fun t ht => hp.grid_le ht
  rw [hs.covers] at hmul
  exact (Nat.le_div_iff_mul_le (Nat.add_pos_right g.front hpos)).mpr hmul

theorem blocks_eq (hs : s.Shows ts) (hp : Proper g ts) : s.blocks = render g.front 0 ts none :=
  blocksFrom_eq hs.headers (by rw [Nat.zero_add, hs.covers]) (hs.length_le hp)

theorem freeChain_eq (hs : s.Shows ts) (hp : Proper g ts) : s.freeChain = frees g.front 0 ts none := by
  have hlt := hs.span_lt
  unfold freeChain
  rw [hs.head]
  exact chainFrom_eq hs.headers (by omega) (hs.length_le hp)

theorem block_eq {pre post : List Tile} {t : Tile} (hs : s.Shows (pre ++ t :: post)) :
    s.block (.ofNat (span g.front pre)) = ⟨.ofNat (span g.front pre),
      t.header (firstFree g.front (span g.front pre + (g.front + t.size)) post none)⟩ := by
  have hmem := mem_render_mid (h := g.front) 0 pre t post none
  rw [Nat.zero_add] at hmem
  have hm := hs.headers _ hmem
  exact block_eq_of_header hm

theorem size_block {pre post : List Tile} {t : Tile} (hs : s.Shows (pre ++ t :: post)) :
    (s.block (.ofNat (span g.front pre))).size = .ofNat t.size := by
  rw [hs.block_eq, Block.size, Tile.size_header]

theorem stop_block {pre post : List Tile} {t : Tile} (hs : s.Shows (pre ++ t :: post)) :
    (s.block (.ofNat (span g.front pre))).stop g = .ofNat (span g.front pre + (g.front + t.size)) := by
  rw [hs.block_eq, stop_eq]

theorem block_behind {pre rest : List Tile} {t u : Tile} (hs : s.Shows (pre ++ t :: u :: rest)) :
    s.block (.ofNat (span g.front pre + (g.front + t.size))) =
      ⟨.ofNat (span g.front pre + (g.front + t.size)), u.header
        (firstFree g.front (span g.front pre + (g.front + t.size) + (g.front + u.size)) rest none)⟩ := by
  have hseam : span g.front (pre ++ [t]) = span g.front pre + (g.front + t.size) := by
    rw [span_append]
    rfl
  have hs' : s.Shows ((pre ++ [t]) ++ u :: rest) := by
    rw [List.append_assoc]
    exact hs
  rw [← hseam]
  exact hs'.block_eq

end Shows

/-! ## Frames -/

/-- Two spaces of one arena with the same bytes outside the cells `W`. -/
structure Frame (s s' : BlockSpace g) (W : Nat → Prop) : Prop where
  base : s'.arena.base = s.arena.base
  layout : s'.arena.layout = s.arena.layout
  get : ∀ i, ¬ W i → s'.arena.memory.get i = s.arena.memory.get i

namespace Frame

variable {s'' : BlockSpace g} {W W' : Nat → Prop}

theorem refl (s : BlockSpace g) (W : Nat → Prop) : s.Frame s W := ⟨rfl, rfl, fun _ _ => rfl⟩

theorem trans (h : s.Frame s' W) (h' : s'.Frame s'' W) : s.Frame s'' W :=
  ⟨h'.base.trans h.base, h'.layout.trans h.layout, fun i hi => (h'.get i hi).trans (h.get i hi)⟩

theorem mono (h : s.Frame s' W) (hW : ∀ i, W i → W' i) : s.Frame s' W' :=
  ⟨h.base, h.layout, fun i hi => h.get i fun hw => hi (hW i hw)⟩

theorem capacity (h : s.Frame s' W) : s'.capacity = s.capacity := congrArg Layout.size h.layout

end Frame

@[simp] theorem base_write (s : BlockSpace g) (b : Block) : (s.write b).arena.base = s.arena.base := by
  rw [write]

@[simp] theorem layout_write (s : BlockSpace g) (b : Block) :
    (s.write b).arena.layout = s.arena.layout := by
  rw [write]

@[simp] theorem capacity_write (s : BlockSpace g) (b : Block) : (s.write b).capacity = s.capacity :=
  congrArg Layout.size (layout_write s b)

@[simp] theorem head_write (s : BlockSpace g) (b : Block) : (s.write b).head = s.head := by
  rw [write]

theorem memory_write (s : BlockSpace g) (b : Block) :
    (s.write b).arena.memory = s.arena.memory.setHeader b.offset b.header := by
  rw [write]

theorem frame_write (s : BlockSpace g) {o : Nat} (ho : o < 2 ^ 64) (hd : Header) :
    s.Frame (s.write ⟨.ofNat o, hd⟩) fun i => o ≤ i ∧ i < o + 24 := by
  refine ⟨base_write s _, layout_write s _, ?_⟩
  intro i hi
  rw [memory_write, Memory.get_setHeader_of_ne]
  rw [Word.toNat_ofNat ho]
  omega

end BlockSpace

/-! ## Cells of headers and usable cells -/

namespace Tiling

variable {h o i : Nat} {ts pre post : List Tile}

/-- A cell of the 24 bytes of some header of the tiles from `o` on. -/
def HeaderCell (h o : Nat) (ts : List Tile) (i : Nat) : Prop :=
  ∃ pre t post, ts = pre ++ t :: post ∧ o + span h pre ≤ i ∧ i < o + span h pre + 24

/-- A usable cell of some tile, by the offsets and sizes of tiles. -/
def Usable (h : Nat) (lives : List (Nat × Nat)) (i : Nat) : Prop :=
  ∃ p ∈ lives, p.1 + h ≤ i ∧ i < p.1 + h + p.2

/-- A usable cell of some free tile, of the tiles from `o` on. -/
def Idle (h o : Nat) (ts : List Tile) (i : Nat) : Prop :=
  ∃ pre t post, ts = pre ++ t :: post ∧ t.free = true ∧ o + span h pre + h ≤ i ∧
    i < o + span h pre + h + t.size

theorem headerCell_mid (t : Tile) (hlo : o + span h pre ≤ i) (hhi : i < o + span h pre + 24) :
    HeaderCell h o (pre ++ t :: post) i := ⟨pre, t, post, rfl, hlo, hhi⟩

theorem HeaderCell.append_right (hi : HeaderCell h o pre i) (post : List Tile) :
    HeaderCell h o (pre ++ post) i := by
  obtain ⟨p, t, q, rfl, hlo, hhi⟩ := hi
  exact ⟨p, t, q ++ post, by simp, hlo, hhi⟩

theorem HeaderCell.append_left (hi : HeaderCell h (o + span h pre) post i) :
    HeaderCell h o (pre ++ post) i := by
  obtain ⟨p, t, q, rfl, hlo, hhi⟩ := hi
  refine ⟨pre ++ p, t, q, by simp, ?_, ?_⟩
  · rw [span_append]; omega
  · rw [span_append]; omega

theorem headerCell_append : HeaderCell h o (pre ++ post) i ↔
    HeaderCell h o pre i ∨ HeaderCell h (o + span h pre) post i := by
  refine ⟨?_, fun hi => hi.elim (·.append_right post) HeaderCell.append_left⟩
  rintro ⟨p, t, q, he, hlo, hhi⟩
  rcases List.append_eq_append_iff.mp he with ⟨mid, rfl, rfl⟩ | ⟨_ | ⟨x, mid⟩, rfl, hq⟩
  · right
    rw [span_append] at hlo hhi
    exact ⟨mid, t, q, rfl, by omega, by omega⟩
  · right
    rw [List.append_nil]
    exact ⟨[], t, q, hq.symm, hlo, hhi⟩
  · left
    rw [List.cons_append, List.cons.injEq] at hq
    exact ⟨p, x, mid, rfl, hlo, hhi⟩

theorem HeaderCell.bounds (hh : 24 ≤ h) (hi : HeaderCell h o ts i) : o ≤ i ∧ i < o + span h ts := by
  obtain ⟨p, t, q, rfl, hlo, hhi⟩ := hi
  rw [span_append, span_cons]
  omega

theorem Usable.not_headerCell (hh : 24 ≤ h) (hl : Usable h (live h o ts) i) : ¬ HeaderCell h o ts i := by
  rintro ⟨pre, t, post, he, hlo, hhi⟩
  obtain ⟨p, hp, hplo, hphi⟩ := hl
  obtain ⟨pre', u, post', he', hu, rfl⟩ := mem_live hp
  rcases split_cases (he.symm.trans he') with ⟨rfl, rfl, -⟩ | ⟨mid, rfl, -⟩ | ⟨mid, rfl, -⟩
  · simp only at hplo
    omega
  · simp only [span_append, span_cons] at hplo
    omega
  · simp only [span_append, span_cons] at hlo hphi
    omega

end Tiling

end ArenaHeap
