import ArenaHeap.Proofs.Checked.Space
import ArenaHeap.Proofs.Loans.Resizing

/-!
# Allocators by checked arithmetic

* `Sound.encloses_free`, `Sound.encloses_live`, `Sound.encloses_behind` : the blocks of a sound space are enclosed;
* `Sound.usage?_eq` : they are counted without a wrap, and so is what they cover;
* `Allocator.init?`, `acquire?`, `release?`, `resize?`, `recover?`, `usage?` : the operations of an allocator;
* `init?_eq`, `Lends.acquire?_eq`, … : none of them stops, with tokens that are lent or of other arenas, and with any
  size, any capacity and any address.
-/

namespace ArenaHeap

open Tiling

variable {g : Geometry} {ts : List Tile} {p : Nat × Nat}

/-! ## Sound spaces -/

namespace BlockSpace

variable {s : BlockSpace g}

theorem Sound.encloses (hs : s.Sound ts) : ∀ b ∈ s.blocks, s.Encloses b := fun _ hb => (hs.bounds_block hb).1

theorem Sound.encloses_free (hs : s.Sound ts) : ∀ b ∈ s.freeChain, s.Encloses b := by
  intro b hb
  rw [hs.freeChain_eq] at hb
  exact hs.encloses b (List.mem_of_mem_filter hb)

theorem Sound.encloses_mid {pre post : List Tile} {t : Tile} (hs : s.Sound (pre ++ t :: post)) :
    s.Encloses (s.block (.ofNat (span g.front pre))) := by
  refine hs.encloses _ ?_
  rw [hs.blocks_mid]
  exact List.mem_append_right _ List.mem_cons_self

theorem Sound.encloses_live (hs : s.Sound ts) (hp : p ∈ live g.front 0 ts) : s.Encloses (s.block (.ofNat p.1)) := by
  obtain ⟨pre, t, post, rfl, -, rfl⟩ := mem_live hp
  rw [Nat.zero_add]
  exact hs.encloses_mid

/-- What lies behind a block that is handed out is a block, unless that is the end of the arena. -/
theorem Sound.encloses_behind (hs : s.Sound ts) (hp : p ∈ live g.front 0 ts)
    (hinside : (s.block (.ofNat p.1)).stop g < s.capacity) :
    s.Encloses (s.block ((s.block (.ofNat p.1)).stop g)) := by
  obtain ⟨pre, t, post, rfl, -, rfl⟩ := mem_live hp
  rw [Nat.zero_add, hs.shows.block_eq, stop_eq] at hinside ⊢
  have hseam : span g.front (pre ++ [t]) = span g.front pre + (g.front + t.size) := by
    rw [span_append, span_cons, span_nil, Nat.add_zero]
  rw [← hseam] at hinside ⊢
  cases post with
  | nil =>
    rw [hs.shows.capacity_eq] at hinside
    exact absurd hinside (UInt64.lt_irrefl _)
  | cons u post =>
    rw [List.append_cons] at hs
    exact hs.encloses_mid

theorem Sound.admits (hs : s.Sound ts) : s.Admits { capacity := s.capacity } s.blocks := by
  have hcovers := hs.covers
  have hlength := hs.blocks_perm.length_eq
  have hbytes : Block.bytes (s.freeChain ++ s.allocated) = Block.bytes s.blocks :=
    (hs.blocks_perm.map _).sum_eq
  rw [Block.bytes_append] at hbytes
  rw [List.length_append] at hlength
  refine ⟨?_, Nat.le_refl 0⟩
  show 0 + 0 + 0 + (g.front * s.blocks.length + Block.bytes s.blocks) ≤ s.capacity.toNat
  rw [← hlength, ← hbytes, Nat.add_comm s.freeChain.length]
  omega

/-- The occupation is counted without a wrap, and so is all that it covers. -/
theorem Sound.usage?_eq (hs : s.Sound ts) :
    s.usage? = some s.usage ∧ s.accounted? s.usage = some s.usage.accounted := by
  obtain ⟨hfold, hfull⟩ := hs.admits.foldlM
  refine ⟨?_, hfull.accounted?_eq⟩
  unfold usage?
  rw [blocksFrom?_eq hs.encloses, Option.bind_eq_bind, Option.bind_some]
  exact hfold

end BlockSpace

/-! ## The operations -/

namespace Allocator

open BlockSpace

/-- Claims an arena of `capacity` bytes, less what does not fill a grain. -/
def init? (a : Allocator g) (capacity : UInt64) : Option (Except Fault Unit × Allocator g) :=
  if a.isInitialized then some (.error .alreadyInitialized, a)
  else do
    let least ← g.splitThreshold?
    let size ← g.granularity.roundDown? capacity
    if size < least then some (.error (.invalidCapacity capacity least), a)
    else match Arena.claim a.store size g.granularity with
      | (none, store) => some (.error (.backingStoreExhausted capacity), { a with store })
      | (some arena, store) => do
        let space ← fresh? g arena
        some (.ok (), ⟨store, some space⟩)

/-- The token of the block at an offset. -/
def tokenAt? (space : BlockSpace g) (offset : UInt64) : Option Token := do
  let address ← space.address? offset
  some ⟨address, (space.block offset).size⟩

/-- Hands out a block with at least `size` usable bytes. -/
def acquire? (a : Allocator g) (size : UInt64) : Option (Except Fault Token × Allocator g) :=
  match a.space with
  | none => some (.error .uninitialized, a)
  | some space => do
    match ← g.alignedSize? size space.capacity with
    | .error fault => some (.error fault, a)
    | .ok aligned =>
      match ← space.firstFit? aligned with
      | none => some (.error (.exhausted size), a)
      | some (offset, space) =>
        let token ← tokenAt? space offset
        some (.ok token, { a with space := some space })

/-- Takes a block back. -/
def release? (a : Allocator g) (token : Token) : Option (Except Fault Unit × Allocator g) :=
  match a.space with
  | none => some (.error .uninitialized, a)
  | some space => do
    match ← space.lookupByTag? token.address with
    | .error fault => some (.error fault, a)
    | .ok offset =>
      let space ← space.reclaim? offset
      some (.ok (), { a with space := some space })

/-- Moves the bytes of `token`, whose block is at `offset`, to a block of `aligned` bytes. -/
def move? (space : BlockSpace g) (token : Token) (offset size aligned : UInt64) :
    Option (Option (Token × BlockSpace g)) := do
  match ← space.firstFit? aligned with
  | none => some none
  | some (target, space) =>
    let arena := space.arena
    let destination ← space.address? target
    let memory := arena.memory.copy (arena.position token.address) (arena.position destination)
      (min token.size size).toNat
    let space ← BlockSpace.reclaim? { space with arena.memory := memory } offset
    let moved ← tokenAt? space target
    some (some (moved, space))

/-- Lets a block have at least `size` usable bytes, where it is if possible. -/
def resize? (a : Allocator g) (token? : Option Token) (size : UInt64) :
    Option (Except ResizeFault (Option Token) × Allocator g) :=
  match token? with
  | none => do
    match ← a.acquire? size with
    | (.ok token, a) => some (.ok (some token), a)
    | (.error fault, a) => some (.error ⟨fault, none⟩, a)
  | some token =>
    if size = 0 then do
      match ← a.release? token with
      | (.ok (), a) => some (.ok none, a)
      | (.error fault, a) => some (.error ⟨fault, none⟩, a)
    else match a.space with
      | none => some (.error ⟨.uninitialized, token⟩, a)
      | some space => do
        match ← space.lookupByTag? token.address with
        | .error fault => some (.error ⟨fault, token⟩, a)
        | .ok offset =>
          match ← g.alignedSize? size space.capacity with
          | .error fault => some (.error ⟨fault, token⟩, a)
          | .ok aligned =>
            match ← space.extend? offset aligned with
            | some (usable, space) => some (.ok (some ⟨token.address, usable⟩), { a with space := some space })
            | none =>
              match ← move? space token offset size aligned with
              | none => some (.error ⟨.exhausted size, token⟩, a)
              | some (moved, space) => some (.ok (some moved), { a with space := some space })

/-- The token of the block that was handed out at an address, whatever the address. -/
def recover? (a : Allocator g) (address : UInt64) : Option (Except Fault Token) :=
  match a.space with
  | none => some (.error .uninitialized)
  | some space => do
    match ← space.lookupByWalk? address with
    | .error fault => some (.error fault)
    | .ok offset => some (.ok ⟨address, (space.block offset).size⟩)

/-- The occupation of the arena. All that it covers is counted as well. -/
def usage? (a : Allocator g) : Option (Except Fault Usage) :=
  match a.space with
  | none => some (.error .uninitialized)
  | some space => do
    let usage ← space.usage?
    let _ ← space.accounted? usage
    some (.ok usage)

/-! ## None of them stops -/

variable {a : Allocator g} {s : BlockSpace g} {toks : List Token} {t : Token} {size aligned address : UInt64}

section Exact

variable (hg : g.Exact)
include hg

theorem init?_eq (a : Allocator g) (capacity : UInt64) : a.init? capacity = some (a.init capacity) := by
  have hconstants := hg.unwrapped
  unfold init? init
  by_cases hready : a.isInitialized = true
  · rw [if_pos hready, if_pos hready]
  rw [if_neg hready, if_neg hready, hconstants.threshold, hconstants.arena]
  simp only [Option.bind_eq_bind, Option.bind_some]
  by_cases hsmall : g.arenaSize capacity < g.minimumCapacity
  · rw [if_pos hsmall]
    exact if_pos hsmall
  rw [if_neg hsmall]
  refine (if_neg hsmall).trans ?_
  rcases hclaim : Arena.claim a.store (g.arenaSize capacity) g.granularity with ⟨_ | arena, store⟩
  · rfl
  · have hheader : g.headerSize ≤ arena.size := by
      rw [claim_size hclaim]
      exact UInt64.le_trans (Geometry.headerSize_le hg) (UInt64.not_lt.mp hsmall)
    simp only [fresh?_eq hheader, Option.bind_some]

omit hg in
theorem tokenAt?_eq {offset : UInt64} (h : s.Encloses (s.block offset)) :
    tokenAt? s offset = some (tokenAt s offset) := by
  unfold tokenAt?
  rw [address?_eq h]
  rfl

theorem Lends.acquire?_eq (h : a.Lends toks) (size : UInt64) : a.acquire? size = some (a.acquire size) := by
  obtain ⟨store, _ | s⟩ := a
  · rfl
  obtain ⟨ts, hs⟩ := h.sound rfl
  unfold acquire? acquire
  simp only [Geometry.alignedSize?_eq s.capacity_lt, Option.bind_eq_bind, Option.bind_some]
  cases haligned : g.alignedSize size s.capacity with
  | error fault => rfl
  | ok aligned =>
    simp only [firstFit?_eq hg hs.encloses_free, Option.bind_some]
    rcases hfirst : s.firstFit aligned with _ | ⟨target, s'⟩
    · rfl
    · obtain ⟨q, ts', hout, rfl, hs', -⟩ := hs.firstFit_copy hg haligned hfirst
      simp only [tokenAt?_eq (hs'.encloses_live hout.mem), Option.bind_some]

omit hg in
/-- An address that is lent, or that no cell of the arena has, is looked up without a wrap. What is found is a block
that is handed out. -/
theorem Lends.lookupByTag?_eq (h : a.Lends toks) (hspace : a.space = some s) (hs : s.Sound ts)
    (hknown : address ∈ toks.map Token.address ∨ a.Outside address) :
    s.lookupByTag? address = some (s.lookupByTag address) ∧
      ∀ offset, s.lookupByTag address = .ok offset → ∃ p ∈ live g.front 0 ts, offset = .ofNat p.1 := by
  rcases hknown with hmem | hout
  · obtain ⟨t, ht, rfl⟩ := List.mem_map.mp hmem
    obtain ⟨p, hp, rfl⟩ := h.token_of_mem hspace hs ht
    refine ⟨BlockSpace.lookupByTag?_eq fun offset hoffset => ?_, fun offset hoffset => ⟨p, hp, ?_⟩⟩
    · obtain rfl := Except.ok.inj ((hs.headerOffset hp).symm.trans hoffset)
      exact hs.encloses_live hp
    · exact Except.ok.inj (hoffset.symm.trans (hs.lookupByTag hp))
  · refine ⟨BlockSpace.lookupByTag?_eq fun offset hoffset => ?_, fun offset hoffset => ?_⟩
    · simp only [headerOffset, hout s hspace] at hoffset
      cases hoffset
    · rw [lookupByTag_outside (hout s hspace)] at hoffset
      cases hoffset

omit hg in
theorem Lends.release?_eq (h : a.Lends toks) (hknown : t.address ∈ toks.map Token.address ∨ a.Outside t.address) :
    a.release? t = some (a.release t) := by
  obtain ⟨store, _ | s⟩ := a
  · rfl
  obtain ⟨ts, hs⟩ := h.sound rfl
  obtain ⟨hlookup, hfound⟩ := h.lookupByTag?_eq rfl hs hknown
  unfold release? Allocator.release
  simp only [hlookup, Option.bind_eq_bind, Option.bind_some]
  cases hoffset : s.lookupByTag t.address with
  | error fault => rfl
  | ok offset =>
    obtain ⟨p, hp, rfl⟩ := hfound offset hoffset
    simp only [reclaim?_eq hs.encloses_free (hs.encloses_live hp), Option.bind_some]

theorem move?_eq (hs : s.Sound ts) (hp : p ∈ live g.front 0 ts) {capacity : UInt64}
    (haligned : g.alignedSize size capacity = .ok aligned) (t : Token) :
    move? s t (.ofNat p.1) size aligned = some (move s t (.ofNat p.1) size aligned) := by
  unfold move? move
  simp only [firstFit?_eq hg hs.encloses_free, Option.bind_eq_bind, Option.bind_some]
  rcases hfirst : s.firstFit aligned with _ | ⟨target, s'⟩
  · rfl
  · obtain ⟨q, ts', hout, rfl, hs', hcopy⟩ := hs.firstFit_copy hg haligned hfirst
    have hp' := hout.mem_of hp
    obtain ⟨ts'', -, hs'', hlive⟩ := (hcopy t).reclaim hp'
    have hq : q ∈ live g.front 0 ts'' :=
      (List.mem_cons.mp (hlive.mem_iff.mp hout.mem)).resolve_left (Ne.symm (hout.ne hp))
    have hreclaim := reclaim?_eq (hcopy t).encloses_free ((hcopy t).encloses_live hp')
    have htoken := tokenAt?_eq (hs''.encloses_live hq)
    unfold BlockSpace.withCopy at hreclaim htoken
    simp only [address?_eq (hs'.encloses_live hout.mem), hreclaim, htoken, Option.bind_some]

theorem Lends.resize?_eq (h : a.Lends toks) {t? : Option Token}
    (hknown : ∀ t ∈ t?, t.address ∈ toks.map Token.address ∨ a.Outside t.address) (size : UInt64) :
    a.resize? t? size = some (a.resize t? size) := by
  unfold resize? resize
  cases t? with
  | none =>
    simp only [h.acquire?_eq hg, Option.bind_eq_bind, Option.bind_some]
    rcases a.acquire size with ⟨_ | _, _⟩ <;> rfl
  | some t =>
    have hknown := hknown t rfl
    by_cases hsize : size = 0
    · simp only [if_pos hsize, h.release?_eq hknown, Option.bind_eq_bind, Option.bind_some]
      rcases a.release t with ⟨_ | _, _⟩ <;> rfl
    simp only [if_neg hsize]
    obtain ⟨store, _ | s⟩ := a
    · rfl
    obtain ⟨ts, hs⟩ := h.sound rfl
    obtain ⟨hlookup, hfound⟩ := h.lookupByTag?_eq rfl hs hknown
    simp only [hlookup, Option.bind_eq_bind, Option.bind_some]
    cases hoffset : s.lookupByTag t.address with
    | error fault => rfl
    | ok offset =>
      obtain ⟨p, hp, rfl⟩ := hfound offset hoffset
      simp only [Geometry.alignedSize?_eq s.capacity_lt, Option.bind_some]
      cases haligned : g.alignedSize size s.capacity with
      | error fault => rfl
      | ok aligned =>
        simp only [extend?_eq hg (hs.encloses_live hp) (hs.encloses_behind hp), Option.bind_some]
        cases s.extend (.ofNat p.1) aligned with
        | some extended => rfl
        | none =>
          simp only [move?_eq hg hs hp haligned, Option.bind_some]
          cases move s t (.ofNat p.1) size aligned <;> rfl

end Exact

theorem Lends.recover?_eq (h : a.Lends toks) (address : UInt64) : a.recover? address = some (a.recover address) := by
  obtain ⟨store, _ | s⟩ := a
  · rfl
  obtain ⟨ts, hs⟩ := h.sound rfl
  unfold recover? recover
  simp only [lookupByWalk?_eq hs.encloses, Option.bind_eq_bind, Option.bind_some]
  cases s.lookupByWalk address <;> rfl

theorem Lends.usage?_eq (h : a.Lends toks) : a.usage? = some a.usage := by
  obtain ⟨store, _ | s⟩ := a
  · rfl
  obtain ⟨ts, hs⟩ := h.sound rfl
  unfold usage? usage
  simp only [hs.usage?_eq.1, hs.usage?_eq.2, Option.bind_eq_bind, Option.bind_some]

end Allocator

end ArenaHeap
