import ArenaHeap.BlockSpace.Lookup
import ArenaHeap.Proofs.Tiling.Operations
import ArenaHeap.Token

/-!
# Sound spaces and their tokens

* `Arena.Placed` : an arena starts on the grid and ends before the end of the address space;
* `BlockSpace.Sound` : a space shows a proper tiling, in an arena that is placed well;
* `BlockSpace.token`, `BlockSpace.tokens` : the tokens of the tiles that are handed out;
* `BlockSpace.allocated`, `BlockSpace.loan` : the blocks that are handed out, and their tokens;
* `Sound.bounds_block`, `Sound.pairwise` : all blocks lie on the grid, one behind the other;
* `Sound.becomes`, `Sound.reclaim`, `extend_uniform` : the operations keep a space sound, and add, remove
  or enlarge a tile that is handed out;
* `Sound.of_frame`, `Becomes.frame_usable` : writing usable bytes keeps the structure, and changing the
  structure keeps usable bytes;
* `Sound.lookupByTag` : the tag finds what is handed out.
-/

namespace ArenaHeap

open Tiling

/-- The arena starts on the grid and ends before the end of the address space. -/
structure Arena.Placed (g : Geometry) (a : Arena) : Prop where
  aligned : g.grid ∣ a.base.toNat
  fits : a.base.toNat + a.size.toNat ≤ 2 ^ 64

namespace BlockSpace

variable {g : Geometry} {s s' : BlockSpace g} {ts ts' : List Tile} {p : Nat × Nat} {b : Block}

/-- The space shows a proper tiling, in an arena that is placed well and not empty. -/
structure Sound (s : BlockSpace g) (ts : List Tile) : Prop where
  shows : s.Shows ts
  proper : Proper g ts
  placed : s.arena.Placed g
  nonempty : 0 < s.capacity.toNat

/-- The token of a tile that is handed out, by its offset and its size. -/
def token (s : BlockSpace g) (p : Nat × Nat) : Token := ⟨s.address (.ofNat p.1), .ofNat p.2⟩

/-- The tokens of the tiles that are handed out. -/
def tokens (s : BlockSpace g) (ts : List Tile) : List Token := (live g.front 0 ts).map s.token

/-- The blocks that are handed out, in physical order. -/
def allocated (s : BlockSpace g) : List Block := s.blocks.filter (·.header.isAllocated)

/-- The token of a block that is handed out. -/
def loan (s : BlockSpace g) (b : Block) : Token := ⟨s.address b.offset, b.size⟩

/-! ## Blocks -/

theorem Sound.grid_dvd_capacity (hs : s.Sound ts) : g.grid ∣ s.capacity.toNat := by
  rw [← hs.shows.covers]
  exact dvd_span hs.proper.grid

theorem Sound.bounds_block (hs : s.Sound ts) (hb : b ∈ s.blocks) :
    b.offset.toNat + (g.front + b.size.toNat) ≤ s.capacity.toNat ∧ g.grid ∣ b.offset.toNat ∧
      g.grid ∣ b.size.toNat ∧ 0 < b.size.toNat := by
  have hlt := hs.shows.span_lt
  have hcovers := hs.shows.covers
  rw [hs.shows.blocks_eq hs.proper] at hb
  obtain ⟨pre, t, post, rfl, rfl⟩ := mem_render hb
  rw [span_append, span_cons] at hlt hcovers
  have hoffset : (UInt64.ofNat (0 + span g.front pre)).toNat = span g.front pre := by
    rw [Nat.zero_add, Word.toNat_ofNat (by omega)]
  have hsize : (UInt64.ofNat t.size).toNat = t.size := Word.toNat_ofNat (by omega)
  simp only [Block.size, Tile.size_header, hoffset, hsize]
  exact ⟨by omega, dvd_span hs.proper.left.grid, hs.proper.grid t (by simp), hs.proper.pos t (by simp)⟩

/-- A tile is a block, between those in front of it and those behind it. -/
theorem Sound.blocks_mid {pre post : List Tile} {t : Tile} (hs : s.Sound (pre ++ t :: post)) :
    s.blocks = render g.front 0 pre (firstFree g.front (span g.front pre) (t :: post) none) ++
      s.block (.ofNat (span g.front pre)) ::
        render g.front (span g.front pre + (g.front + t.size)) post none := by
  rw [hs.shows.blocks_eq hs.proper, render_append, render_cons, Nat.zero_add, ← hs.shows.block_eq]

theorem Sound.isFree_block (hs : s.Sound ts) (hb : b ∈ s.blocks) :
    b.header.isFree = !b.header.isAllocated := by
  rw [hs.shows.blocks_eq hs.proper] at hb
  obtain ⟨pre, t, post, -, rfl⟩ := mem_render hb
  rw [Tile.isFree_header, Tile.isAllocated_header, Bool.not_not]

theorem Sound.pairwise (hs : s.Sound ts) :
    s.blocks.Pairwise fun b c => b.offset.toNat + (g.front + b.size.toNat) ≤ c.offset.toNat := by
  have hlt := hs.shows.span_lt
  rw [hs.shows.blocks_eq hs.proper]
  exact render_pairwise (by omega)

theorem Sound.ascending (hs : s.Sound ts) : s.blocks.Pairwise fun b c => b.offset < c.offset := by
  refine hs.pairwise.imp fun {b c} hle => ?_
  have hfront := g.le_front
  rw [UInt64.lt_iff_toNat_lt]
  omega

/-! ## Tiles that are handed out -/

theorem Sound.allocated_eq (hs : s.Sound ts) :
    s.allocated = (live g.front 0 ts).map fun p => ⟨.ofNat p.1, .allocated (.ofNat p.2)⟩ := by
  unfold allocated
  rw [hs.shows.blocks_eq hs.proper, filter_isAllocated_render]

theorem Sound.map_loan (hs : s.Sound ts) : s.allocated.map s.loan = s.tokens ts := by
  rw [hs.allocated_eq, tokens, List.map_map]
  rfl

theorem Sound.bounds (hs : s.Sound ts) (hp : p ∈ live g.front 0 ts) :
    p.1 + (g.front + p.2) ≤ s.capacity.toNat ∧ g.grid ∣ p.1 ∧ g.grid ∣ p.2 ∧ 0 < p.2 := by
  obtain ⟨pre, t, post, rfl, -, rfl⟩ := mem_live hp
  have hcovers := hs.shows.covers
  rw [span_append, span_cons] at hcovers
  rw [Nat.zero_add]
  refine ⟨?_, dvd_span hs.proper.left.grid, hs.proper.grid t (by simp), hs.proper.pos t (by simp)⟩
  simp only
  omega

theorem Sound.block_live (hs : s.Sound ts) (hp : p ∈ live g.front 0 ts) :
    s.block (.ofNat p.1) = ⟨.ofNat p.1, .allocated (.ofNat p.2)⟩ := by
  obtain ⟨pre, t, post, rfl, ht, rfl⟩ := mem_live hp
  rw [Nat.zero_add, hs.shows.block_eq, Tile.header_live ht]

theorem live_apart {h : Nat} {q : Nat × Nat} (hp : p ∈ live h 0 ts) (hq : q ∈ live h 0 ts) :
    p = q ∨ p.1 + (h + p.2) ≤ q.1 ∨ q.1 + (h + q.2) ≤ p.1 := by
  obtain ⟨pre, t, post, he, -, rfl⟩ := mem_live hp
  obtain ⟨pre', t', post', he', -, rfl⟩ := mem_live hq
  rcases split_cases (he.symm.trans he') with ⟨rfl, rfl, -⟩ | ⟨mid, rfl, -⟩ | ⟨mid, rfl, -⟩
  · exact Or.inl rfl
  · right
    simp only [span_append, span_cons]
    omega
  · right
    simp only [span_append, span_cons]
    omega

/-! ## Addresses -/

theorem address_eq (s : BlockSpace g) (o : Nat) :
    s.address (.ofNat o) = s.arena.base + .ofNat (o + g.front) := by
  unfold address
  rw [Arena.addressOf, headerSize_eq, UInt64.ofNat_add]

theorem position_address {o : Nat} (ho : o + g.front < 2 ^ 64) :
    s.arena.position (s.address (.ofNat o)) = o + g.front := by
  unfold Arena.position
  rw [address_eq, UInt64.add_comm, UInt64.add_sub_cancel, Word.toNat_ofNat ho]

theorem position_address_add {o place : Nat} (hend : o + g.front + place < 2 ^ 64) :
    s.arena.position (s.address (.ofNat o) + .ofNat place) = o + g.front + place := by
  rw [Arena.position, address_eq, UInt64.add_assoc, ← UInt64.ofNat_add, UInt64.add_comm,
    UInt64.add_sub_cancel, Word.toNat_ofNat hend]

theorem toNat_address {o : Nat} (hplaced : s.arena.Placed g) (ho : o + g.front < s.capacity.toNat) :
    (s.address (.ofNat o)).toNat = s.arena.base.toNat + (o + g.front) := by
  have hcap := s.capacity_lt
  have hfits : s.arena.base.toNat + s.capacity.toNat ≤ 2 ^ 64 := hplaced.fits
  rw [address_eq, UInt64.toNat_add, Word.toNat_ofNat (by omega), Nat.mod_eq_of_lt (by omega)]

theorem Sound.toNat_token (hs : s.Sound ts) (hp : p ∈ live g.front 0 ts) :
    (s.token p).address.toNat = s.arena.base.toNat + (p.1 + g.front) ∧ (s.token p).size.toNat = p.2 := by
  obtain ⟨hle, -, -, hpos⟩ := hs.bounds hp
  have hcap := s.capacity_lt
  exact ⟨toNat_address hs.placed (by omega), Word.toNat_ofNat (by omega)⟩

theorem Sound.position (hs : s.Sound ts) (hp : p ∈ live g.front 0 ts) :
    s.arena.position (s.token p).address = p.1 + g.front := by
  have hle := (hs.bounds hp).1
  have hcap := s.capacity_lt
  exact position_address (by omega)

theorem Sound.position_block (hs : s.Sound ts) (hb : b ∈ s.blocks) :
    s.arena.position (s.address b.offset) = b.offset.toNat + g.front := by
  have hle := (hs.bounds_block hb).1
  have hcap := s.capacity_lt
  have hat := position_address (s := s) (o := b.offset.toNat) (by omega)
  rwa [UInt64.ofNat_toNat] at hat

theorem Sound.token_inj (hs : s.Sound ts) {q : Nat × Nat} (hp : p ∈ live g.front 0 ts)
    (hq : q ∈ live g.front 0 ts) (he : (s.token p).address = (s.token q).address) : p = q := by
  have hpAddress := (hs.toNat_token hp).1
  have hqAddress := (hs.toNat_token hq).1
  have hpos := (hs.bounds hp).2.2.2
  have hpos' := (hs.bounds hq).2.2.2
  rw [he] at hpAddress
  rcases live_apart hp hq with rfl | hlt | hlt
  · rfl
  · omega
  · omega

/-- The address of an offset on the grid names that offset. -/
theorem headerOffset_address (hplaced : s.arena.Placed g) {o : Nat} (hgrid : g.grid ∣ o)
    (ho : o + g.front < s.capacity.toNat) : s.headerOffset (s.address (.ofNat o)) = .ok (.ofNat o) := by
  have hcap := s.capacity_lt
  have haddress := toNat_address hplaced ho
  have hoffset : s.address (.ofNat o) - s.arena.base = .ofNat (o + g.front) := by
    rw [address_eq, UInt64.add_comm, UInt64.add_sub_cancel]
  have hinside : s.arena.base ≤ s.address (.ofNat o) ∧ s.address (.ofNat o) - s.arena.base < s.arena.size := by
    rw [hoffset, UInt64.le_iff_toNat_le, UInt64.lt_iff_toNat_lt, Word.toNat_ofNat (by omega), haddress]
    show _ ∧ o + g.front < s.capacity.toNat
    omega
  have hheader : UInt64.ofNat (o + g.front) - g.headerSize = .ofNat o := by
    rw [headerSize_eq, UInt64.ofNat_add, UInt64.add_sub_cancel]
  have hnot : ¬ (UInt64.ofNat (o + g.front) < g.headerSize ∨ g.granularity.rem (.ofNat o) ≠ 0) := by
    rw [headerSize_eq, Word.ofNat_lt_iff (by omega) (by omega), not_or, not_not]
    refine ⟨by omega, UInt64.toNat.inj ?_⟩
    rw [PowerOfTwo.toNat_rem, Word.toNat_ofNat (by omega)]
    exact Nat.mod_eq_zero_of_dvd hgrid
  unfold headerOffset
  unfold Arena.offsetOf?
  rw [if_pos hinside, hoffset]
  simp only
  rw [hheader, if_neg hnot]

theorem Sound.headerOffset (hs : s.Sound ts) (hp : p ∈ live g.front 0 ts) :
    s.headerOffset (s.token p).address = .ok (.ofNat p.1) := by
  obtain ⟨hle, hgrid, -, hpos⟩ := hs.bounds hp
  exact headerOffset_address hs.placed hgrid (by omega)

theorem Sound.lookupByTag (hs : s.Sound ts) (hp : p ∈ live g.front 0 ts) :
    s.lookupByTag (s.token p).address = .ok (.ofNat p.1) := by
  obtain ⟨hle, -, -, hpos⟩ := hs.bounds hp
  have hcap := s.capacity_lt
  have hstop : Block.stop g ⟨.ofNat p.1, .allocated (.ofNat p.2)⟩ ≤ s.capacity := by
    have hword := stop_eq g p.1 ⟨p.2, false⟩ none
    rw [Tile.header_live rfl] at hword
    rw [hword, UInt64.le_iff_toNat_le, Word.toNat_ofNat (by simp only; omega)]
    exact hle
  have hallocated : (Header.allocated (.ofNat p.2)).isAllocated = true := rfl
  unfold BlockSpace.lookupByTag
  simp only [hs.headerOffset hp, bind, Except.bind]
  rw [hs.block_live hp, if_pos ⟨hallocated, hstop⟩]

/-! ## Operations -/

theorem Frame.placed {W : Nat → Prop} (hf : s.Frame s' W) (hs : s.arena.Placed g) : s'.arena.Placed g := by
  refine ⟨?_, ?_⟩
  · rw [hf.base]
    exact hs.aligned
  · rw [hf.base, Arena.size, hf.layout]
    exact hs.fits

theorem Sound.becomes (hs : s.Sound ts) (hb : s.Becomes s' ts') (hp : Proper g ts') : s'.Sound ts' :=
  ⟨hb.shows, hp, hb.frame.placed hs.placed, hb.frame.capacity ▸ hs.nonempty⟩

theorem token_congr (hbase : s'.arena.base = s.arena.base) : s'.token = s.token := by
  funext p
  rw [BlockSpace.token, BlockSpace.token, address_eq, address_eq, hbase]

theorem Frame.token {W : Nat → Prop} (hf : s.Frame s' W) : s'.token = s.token := token_congr hf.base

theorem Sound.reclaim_mid {pre post : List Tile} {t : Tile} (hs : s.Sound (pre ++ t :: post))
    (ht : t.free = false) :
    s.Becomes (s.reclaim (.ofNat (span g.front pre))) (freed g.front pre t.size post) ∧
      (s.reclaim (.ofNat (span g.front pre))).Sound (freed g.front pre t.size post) := by
  have hb := reclaim_becomes hs.shows hs.proper ht
  exact ⟨hb, hs.becomes hb hs.proper.freed⟩

theorem Sound.reclaim (hs : s.Sound ts) (hp : p ∈ live g.front 0 ts) :
    ∃ ts', s.Becomes (s.reclaim (.ofNat p.1)) ts' ∧ (s.reclaim (.ofNat p.1)).Sound ts' ∧
      (live g.front 0 ts).Perm (p :: live g.front 0 ts') := by
  obtain ⟨pre, t, post, rfl, ht, rfl⟩ := mem_live hp
  rw [Nat.zero_add]
  obtain ⟨hb, hs'⟩ := hs.reclaim_mid ht
  exact ⟨_, hb, hs', live_freed_perm ht⟩

/-- What `extend` does, whatever sound space it is: nothing because the tile is large enough, nothing
because there is no room behind it, or let it have more bytes. -/
theorem extend_uniform (hg : g.Exact) (hproper : Proper g ts) (hp : p ∈ live g.front 0 ts) {n : Nat}
    (hgrid : g.grid ∣ n) (hpos : 0 < n) (hn : n < 2 ^ 64) :
    (n ≤ p.2 ∧ ∀ s : BlockSpace g, s.Sound ts → s.extend (.ofNat p.1) (.ofNat n) = some (.ofNat p.2, s)) ∨
      (p.2 < n ∧ ∀ s : BlockSpace g, s.Sound ts → s.extend (.ofNat p.1) (.ofNat n) = none) ∨
      ∃ m ts' rest, p.2 < n ∧ n ≤ m ∧ (live g.front 0 ts).Perm (p :: rest) ∧
        (live g.front 0 ts').Perm ((p.1, m) :: rest) ∧ ∀ s : BlockSpace g, s.Sound ts → ∃ s',
          s.extend (.ofNat p.1) (.ofNat n) = some (.ofNat m, s') ∧ s.Becomes s' ts' ∧ s'.Sound ts' := by
  obtain ⟨pre, t, post, rfl, ht, rfl⟩ := mem_live hp
  rw [Nat.zero_add]
  rcases BlockSpace.extend_cases hg hproper ht hn with
    ⟨hfit, hsame⟩ | ⟨hmore, -, hnone⟩ | ⟨m, rest, rfl, hmore, hle, hextend⟩
  · exact Or.inl ⟨hfit, fun s hs => hsame s hs.shows⟩
  · exact Or.inr (Or.inl ⟨hmore, fun s hs => hnone s hs.shows⟩)
  · have hseam : span g.front pre + (g.front + (t.size + g.front + m)) =
        span g.front pre + (g.front + t.size) + (g.front + m) := by omega
    refine Or.inr (Or.inr ⟨granted g (t.size + g.front + m) n,
      pre ++ (carve g (t.size + g.front + m) n ++ rest), live g.front 0 pre ++
      live g.front (span g.front pre + (g.front + t.size) + (g.front + m)) rest, hmore, le_granted hle,
      ?_, ?_, ?_⟩)
    · rw [live_append, live_live ht, live_free rfl, Nat.zero_add]
      exact List.perm_middle
    · rw [live_append, live_append, live_carve, span_carve hle, Nat.zero_add, hseam]
      exact List.perm_middle
    · intro s hs
      obtain ⟨s', he, hb⟩ := hextend s hs.shows
      exact ⟨s', he, hb, hs.becomes hb (hproper.swallow hg hgrid hpos hle)⟩

/-! ## Bytes -/

/-- Writing usable bytes of what is handed out keeps the structure. -/
theorem Sound.of_frame (hs : s.Sound ts) (hf : s.Frame s' (Usable g.front (live g.front 0 ts)))
    (hhead : s'.head = s.head) : s'.Sound ts := by
  have hfront := g.le_front
  have hlt := hs.shows.span_lt
  have hkept (i : Nat) (hi : HeaderCell g.front 0 ts i) : s'.arena.memory.get i = s.arena.memory.get i :=
    hf.get i fun hl => hl.not_headerCell hfront hi
  have hshows : s'.Shows ts := by
    refine ⟨?_, ?_, ?_⟩
    · rw [hs.shows.covers, hf.capacity]
    · rw [hhead, hs.shows.head]
    · intro b hb
      have hheader := hs.shows.headers b hb
      obtain ⟨pre, t, post, rfl, rfl⟩ := mem_render hb
      rw [span_append, span_cons] at hlt
      rw [← hheader]
      refine Memory.header_congr fun k hk => hkept _ (headerCell_mid t ?_ ?_)
      · rw [Word.toNat_ofNat (by omega)]
        omega
      · rw [Word.toNat_ofNat (by omega)]
        omega
  exact ⟨hshows, hs.proper, hf.placed hs.placed, hf.capacity ▸ hs.nonempty⟩

theorem Frame.read {W : Nat → Prop} {o n : Nat} (hf : s.Frame s' W) (ho : o + g.front < 2 ^ 64)
    (hout : ∀ i, o + g.front ≤ i → i < o + g.front + n → ¬ W i) :
    s'.arena.read (s.address (.ofNat o)) n = s.arena.read (s.address (.ofNat o)) n := by
  have hposition : s'.arena.position (s.address (.ofNat o)) = s.arena.position (s.address (.ofNat o)) := by
    rw [Arena.position, hf.base, Arena.position]
  rw [Arena.read, Arena.read, hposition, position_address ho]
  exact Memory.bytes_congr fun k hk => hf.get _ (hout _ (by omega) (by omega))

/-- A change of the structure keeps the usable bytes of what is handed out afterwards. -/
theorem Becomes.frame_usable {lives : List (Nat × Nat)} (hb : s.Becomes s' ts')
    (hsub : ∀ p ∈ lives, p ∈ live g.front 0 ts') : s.Frame s' fun i => ¬ Usable g.front lives i := by
  apply hb.frame.mono
  intro i hi hu
  obtain ⟨p, hp, hlo, hhi⟩ := hu
  exact Usable.not_headerCell g.le_front ⟨p, hsub p hp, hlo, hhi⟩ hi

/-- A change of the structure keeps each usable byte of a tile that is handed out afterwards. -/
theorem Becomes.get_usable (hb : s.Becomes s' ts') (hp : p ∈ live g.front 0 ts') {i : Nat}
    (hlo : p.1 + g.front ≤ i) (hhi : i < p.1 + g.front + p.2) :
    s'.arena.memory.get i = s.arena.memory.get i :=
  (hb.frame_usable (List.forall_mem_singleton.mpr hp)).get i fun hnot =>
    hnot ⟨p, List.mem_singleton_self p, hlo, hhi⟩

theorem frame_bytes (s : BlockSpace g) {o place : Nat} (hend : o + g.front + place < 2 ^ 64)
    (bytes : List UInt8) :
    s.Frame { s with arena := s.arena.write (s.address (.ofNat o) + .ofNat place) bytes }
      fun i => o + g.front + place ≤ i ∧ i < o + g.front + place + bytes.length := by
  refine ⟨rfl, rfl, ?_⟩
  intro i hi
  simp only [Arena.write, position_address_add hend]
  rw [Memory.get_setBytes]
  split
  · rw [List.getElem?_eq_none (by omega), Option.getD_none]
  · rfl

theorem not_usable_of_perm {h i : Nat} (hh : 0 < h) {rest : List (Nat × Nat)}
    (hperm : (live h 0 ts).Perm (p :: rest)) (hlo : p.1 + h ≤ i) (hhi : i < p.1 + h + p.2) :
    ¬ Usable h rest i := by
  rintro ⟨q, hq, hqlo, hqhi⟩
  have hp : p ∈ live h 0 ts := hperm.mem_iff.mpr List.mem_cons_self
  have hq' : q ∈ live h 0 ts := hperm.mem_iff.mpr (List.mem_cons_of_mem _ hq)
  rcases live_apart hp hq' with rfl | hlt | hlt
  · exact not_mem_of_perm hh hperm hq
  · omega
  · omega

theorem Sound.write_bytes (hs : s.Sound ts) (hp : p ∈ live g.front 0 ts) {place : Nat} {bytes : List UInt8}
    (hfit : place + bytes.length ≤ p.2) :
    @Sound g { s with arena := s.arena.write ((s.token p).address + .ofNat place) bytes } ts ∧
      s.Frame { s with arena := s.arena.write ((s.token p).address + .ofNat place) bytes }
        fun i => p.1 + g.front ≤ i ∧ i < p.1 + g.front + p.2 := by
  have hle := (hs.bounds hp).1
  have hcap := s.capacity_lt
  have hend : p.1 + g.front + place < 2 ^ 64 := by omega
  have hframe : s.Frame { s with arena := s.arena.write ((s.token p).address + .ofNat place) bytes }
      fun i => p.1 + g.front ≤ i ∧ i < p.1 + g.front + p.2 :=
    (frame_bytes s hend bytes).mono fun i hi => by omega
  exact ⟨hs.of_frame (hframe.mono fun i hi => ⟨p, hp, hi.1, hi.2⟩) rfl, hframe⟩

end BlockSpace

end ArenaHeap
