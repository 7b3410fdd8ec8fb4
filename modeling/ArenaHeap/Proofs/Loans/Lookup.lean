import ArenaHeap.Proofs.Loans.Resizing

/-!
# Looking blocks up

* `Shows.block_of_mem` : the blocks of a walk are those that lie in memory;
* `headerOffset_ok`, `headerOffset_error`, `lookupByWalk_ok` : what an address that is found out to be good
  says, and how one is refused that is not on the grid of the arena;
* `Block.verdict` : what is to be said of the address of a block;
* `judge_block`, `judge_stray` : the walk may stop early, since the offsets of blocks ascend;
* `Sound.lookupByTag_block`, `Sound.lookupByWalk_block` : the tag and the walk say that of the offset of a
  block, and `lookupByWalk_stray` is what the walk says of every other address;
* `Allocator.recover_block`, `Allocator.recover_stray` : so does an allocator that recovers a token
  (`recover_cases`);
* `Allocator.Refuses` : it refuses tokens of other arenas (`refuses_outside`) and of free blocks
  (`refuses_free`);
* `Lends.recover_iff` : an address recovers the token that is lent there, and nothing else.
-/

namespace ArenaHeap

open Tiling

variable {g : Geometry} {ts : List Tile} {p : Nat × Nat}

/-- What is to be said of an address that names the block. -/
def Block.verdict (b : Block) (address : UInt64) : Except Fault UInt64 :=
  if b.header.isAllocated then .ok b.offset else .error (.doubleFree address)

namespace BlockSpace

variable {s : BlockSpace g} {b : Block} {address offset : UInt64}

theorem Shows.block_of_mem (hs : s.Shows ts) (hp : Proper g ts) (hb : b ∈ s.blocks) :
    s.block b.offset = b := by
  rw [hs.blocks_eq hp] at hb
  exact block_eq_of_header (hs.headers b hb)

theorem headerOffset_ok (h : s.headerOffset address = .ok offset) : s.address offset = address := by
  unfold headerOffset Arena.offsetOf? at h
  split at h
  · cases h
  · rename_i user huser
    split at huser
    · cases huser
      split at h
      · cases h
      · cases h
        unfold BlockSpace.address
        rw [Arena.addressOf, UInt64.sub_add_cancel, UInt64.add_comm, UInt64.sub_add_cancel]
    · cases huser

theorem headerOffset_error {fault : Fault} (h : s.headerOffset address = .error fault) :
    fault = .foreignPointer address := by
  unfold headerOffset at h
  split at h
  · exact (Except.error.inj h).symm
  · split at h
    · exact (Except.error.inj h).symm
    · cases h

theorem judge_ok {bs : List Block} {o : UInt64} (h : judge bs address o = .ok offset) :
    ∃ b ∈ bs, b.header.isAllocated = true ∧ b.offset = o ∧ o = offset := by
  induction bs with
  | nil => cases h
  | cons c bs ih =>
    rw [judge] at h
    split at h
    · split at h
      · cases h
        exact ⟨c, List.mem_cons_self, ‹_›, ‹_›, rfl⟩
      · cases h
    · split at h
      · cases h
      · obtain ⟨b, hb, hfound⟩ := ih h
        exact ⟨b, List.mem_cons_of_mem _ hb, hfound⟩

/-- The walk meets a block before it is behind it, since offsets ascend. -/
theorem judge_block {bs : List Block} (hascending : bs.Pairwise fun b c => b.offset < c.offset) (hb : b ∈ bs) :
    judge bs address b.offset = b.verdict address := by
  induction bs with
  | nil => cases hb
  | cons c bs ih =>
    obtain ⟨hfirst, hrest⟩ := List.pairwise_cons.mp hascending
    rw [judge]
    rcases List.mem_cons.mp hb with rfl | hb
    · rw [if_pos rfl, Block.verdict]
    · have hlt := hfirst b hb
      rw [if_neg (UInt64.ne_of_lt hlt), if_neg (UInt64.lt_asymm hlt), ih hrest hb]

theorem judge_stray {bs : List Block} {o : UInt64} (hstray : ∀ b ∈ bs, b.offset ≠ o) :
    judge bs address o = .error (.foreignPointer address) := by
  induction bs with
  | nil => rfl
  | cons c bs ih =>
    obtain ⟨hfirst, hrest⟩ := List.forall_mem_cons.mp hstray
    rw [judge, if_neg hfirst, ih hrest, ite_self]

theorem lookupByWalk_ok (h : s.lookupByWalk address = .ok offset) :
    s.address offset = address ∧ ∃ b ∈ s.allocated, b.offset = offset := by
  unfold BlockSpace.lookupByWalk at h
  cases hheader : s.headerOffset address with
  | error fault =>
    rw [hheader] at h
    cases h
  | ok o =>
    rw [hheader] at h
    obtain ⟨b, hb, hallocated, rfl, rfl⟩ := judge_ok h
    exact ⟨headerOffset_ok hheader, b, List.mem_filter.mpr ⟨hb, hallocated⟩, rfl⟩

/-! ## Blocks -/

theorem Sound.stop_le (hs : s.Sound ts) (hb : b ∈ s.blocks) : b.stop g ≤ s.capacity := by
  have hle := (hs.bounds_block hb).1
  have hcap := s.capacity_lt
  have hstop : b.stop g = .ofNat (b.offset.toNat + (g.front + b.size.toNat)) := by
    rw [Block.stop, headerSize_eq, UInt64.ofNat_add, UInt64.ofNat_add, UInt64.ofNat_toNat, UInt64.ofNat_toNat,
      UInt64.add_assoc]
  rw [hstop, UInt64.le_iff_toNat_le, Word.toNat_ofNat (by omega)]
  exact hle

theorem Sound.headerOffset_block (hs : s.Sound ts) (hb : b ∈ s.blocks) :
    s.headerOffset (s.address b.offset) = .ok b.offset := by
  obtain ⟨hle, hgrid, -, hpos⟩ := hs.bounds_block hb
  have hnamed := headerOffset_address hs.placed hgrid (by omega)
  rwa [UInt64.ofNat_toNat] at hnamed

/-! ## The two look-ups -/

theorem lookups_refused {fault : Fault} (h : s.headerOffset address = .error fault) :
    s.lookupByTag address = .error fault ∧ s.lookupByWalk address = .error fault := by
  unfold BlockSpace.lookupByTag BlockSpace.lookupByWalk
  simp only [h, bind, Except.bind]
  exact ⟨trivial, trivial⟩

theorem Sound.lookupByTag_block (hs : s.Sound ts) (hb : b ∈ s.blocks)
    (ho : s.headerOffset address = .ok b.offset) : s.lookupByTag address = b.verdict address := by
  have hfree := hs.isFree_block hb
  unfold BlockSpace.lookupByTag Block.verdict
  simp only [ho, bind, Except.bind]
  rw [hs.shows.block_of_mem hs.proper hb]
  cases hallocated : b.header.isAllocated with
  | true => rw [if_pos ⟨rfl, hs.stop_le hb⟩, if_pos rfl]
  | false =>
    rw [hallocated, Bool.not_false] at hfree
    rw [if_neg (fun h => Bool.false_ne_true h.1), if_pos hfree, if_neg Bool.false_ne_true]

theorem Sound.lookupByWalk_block (hs : s.Sound ts) (hb : b ∈ s.blocks)
    (ho : s.headerOffset address = .ok b.offset) : s.lookupByWalk address = b.verdict address := by
  unfold BlockSpace.lookupByWalk
  simp only [ho, bind, Except.bind]
  exact judge_block hs.ascending hb

/-- The walk refuses an address that names no block. -/
theorem lookupByWalk_stray (hstray : ∀ b ∈ s.blocks, s.address b.offset ≠ address) :
    s.lookupByWalk address = .error (.foreignPointer address) := by
  cases hheader : s.headerOffset address with
  | error fault =>
    rw [(lookups_refused hheader).2, headerOffset_error hheader]
  | ok offset =>
    unfold BlockSpace.lookupByWalk
    simp only [hheader, bind, Except.bind]
    refine judge_stray fun b hb he => hstray b hb ?_
    rw [he]
    exact headerOffset_ok hheader

theorem Sound.lookupByWalk (hs : s.Sound ts) (hp : p ∈ live g.front 0 ts) :
    s.lookupByWalk (s.token p).address = .ok (.ofNat p.1) := by
  have hblock := hs.block_live hp
  have hmem : (⟨.ofNat p.1, .allocated (.ofNat p.2)⟩ : Block) ∈ s.allocated := by
    rw [hs.allocated_eq]
    exact List.mem_map_of_mem hp
  exact hs.lookupByWalk_block (List.mem_of_mem_filter hmem) (hs.headerOffset hp)

end BlockSpace

namespace Allocator

variable {a : Allocator g} {toks : List Token} {t : Token} {s : BlockSpace g} {b : Block} {address : UInt64}

theorem recover_block (hs : a.space = some s) (hsound : s.Sound ts) (hb : b ∈ s.blocks) :
    a.recover (s.address b.offset) =
      if b.header.isAllocated then .ok (s.loan b) else .error (.doubleFree (s.address b.offset)) := by
  have hwalk := hsound.lookupByWalk_block hb (hsound.headerOffset_block hb)
  simp only [recover, hs, hwalk, Block.verdict]
  cases b.header.isAllocated with
  | true =>
    simp only [if_true]
    rw [hsound.shows.block_of_mem hsound.proper hb]
    rfl
  | false => rfl

theorem recover_stray (hs : a.space = some s) (hstray : ∀ b ∈ s.blocks, s.address b.offset ≠ address) :
    a.recover address = .error (.foreignPointer address) := by
  simp only [recover, hs, BlockSpace.lookupByWalk_stray hstray]

/-- What recovering says of an address, and why. -/
theorem recover_cases (hs : a.space = some s) (hsound : s.Sound ts) (address : UInt64) :
    (∃ b ∈ s.allocated, s.address b.offset = address ∧ a.recover address = .ok (s.loan b)) ∨
      (∃ b ∈ s.blocks, b.header.isFree = true ∧ s.address b.offset = address ∧
        a.recover address = .error (.doubleFree address)) ∨
      (∀ b ∈ s.blocks, s.address b.offset ≠ address) ∧ a.recover address = .error (.foreignPointer address) := by
  by_cases hblock : ∃ b ∈ s.blocks, s.address b.offset = address
  · obtain ⟨b, hb, rfl⟩ := hblock
    have hfree := hsound.isFree_block hb
    have hrecover := recover_block hs hsound hb
    cases hallocated : b.header.isAllocated with
    | true =>
      rw [hallocated, if_pos rfl] at hrecover
      exact Or.inl ⟨b, List.mem_filter.mpr ⟨hb, hallocated⟩, rfl, hrecover⟩
    | false =>
      rw [hallocated, if_neg Bool.false_ne_true] at hrecover
      rw [hallocated, Bool.not_false] at hfree
      exact Or.inr (Or.inl ⟨b, hb, hfree, rfl, hrecover⟩)
  · have hstray : ∀ b ∈ s.blocks, s.address b.offset ≠ address := fun b hb he => hblock ⟨b, hb, he⟩
    exact Or.inr (Or.inr ⟨hstray, recover_stray hs hstray⟩)

/-- The allocator refuses the token, and hands it back unless its block was to be released. -/
structure Refuses (a : Allocator g) (t : Token) (fault : Fault) : Prop where
  release : a.release t = (.error fault, a)
  resize : ∀ size, a.resize (some t) size = (.error ⟨fault, if size = 0 then none else some t⟩, a)

theorem Refuses.of_release {fault : Fault} (h : a.release t = (.error fault, a))
    (hmore : ∀ size, size ≠ 0 → a.resize (some t) size = (.error ⟨fault, some t⟩, a)) : a.Refuses t fault := by
  refine ⟨h, fun size => ?_⟩
  by_cases hsize : size = 0
  · rw [if_pos hsize]
    simp only [Allocator.resize, if_pos hsize, h]
  · rw [if_neg hsize]
    exact hmore size hsize

theorem refuses_outside (h : a.Outside t.address) : a.Refuses t (a.strange t.address) :=
  .of_release (release_outside h) fun _ hsize => resize_outside h hsize

theorem refuses_of_lookup {fault : Fault} (hs : a.space = some s) (h : s.lookupByTag t.address = .error fault) :
    a.Refuses t fault := by
  apply Refuses.of_release
  · simp only [release, hs, h]
  · intro size hsize
    simp only [resize, if_neg hsize, hs, h]

theorem refuses_free (hs : a.space = some s) (hsound : s.Sound ts) (hb : b ∈ s.blocks)
    (hfree : b.header.isFree = true) (ht : s.address b.offset = t.address) :
    a.Refuses t (.doubleFree t.address) := by
  have hheader := hsound.headerOffset_block hb
  have hnot : b.header.isAllocated = false := by
    rw [hsound.isFree_block hb] at hfree
    simpa using hfree
  rw [ht] at hheader
  apply refuses_of_lookup hs
  rw [hsound.lookupByTag_block hb hheader, Block.verdict, hnot, if_neg Bool.false_ne_true]

/-- An address recovers the token that is lent there, and an address where none is lent is refused. -/
theorem Lends.recover_iff (h : a.Lends toks) :
    a.recover address = .ok t ↔ t ∈ toks ∧ t.address = address := by
  cases h with
  | bare store =>
    constructor
    · intro hok
      cases hok
    · intro hmem
      cases hmem.1
  | @lent store s ts _ hs hp =>
    constructor
    · intro hok
      unfold recover at hok
      simp only at hok
      split at hok
      · cases hok
      · rename_i offset hwalk
        cases hok
        obtain ⟨haddress, b, hb, rfl⟩ := BlockSpace.lookupByWalk_ok hwalk
        have hblock := hs.shows.block_of_mem hs.proper (List.mem_of_mem_filter hb)
        refine ⟨?_, rfl⟩
        rw [hp.mem_iff, ← hs.map_loan, hblock, ← haddress]
        exact List.mem_map_of_mem hb
    · rintro ⟨hmem, rfl⟩
      obtain ⟨p, hlive, rfl⟩ := (mem_iff hp).mp hmem
      simp only [recover, hs.lookupByWalk hlive, hs.block_live hlive]
      rfl

end Allocator

end ArenaHeap
