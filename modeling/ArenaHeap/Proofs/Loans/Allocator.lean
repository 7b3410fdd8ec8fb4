import ArenaHeap.Allocator
import ArenaHeap.Proofs.Loans.Space
import Mathlib.Data.List.Nodup

/-!
# What allocators lend

* `Arena.claim_cases` : what a store answers, and what it remembers;
* `Allocator.Lends` : the tokens of all that an allocator handed out, in any order; `Allocator.lent` are
  those that its blocks tell;
* `Allocator.Stays` : the arena stays where it is;
* `Allocator.Spares` : moreover the holders of some tokens still find their bytes;
* `Lends.nodup`, `Lends.inside`, `Lends.placed`, `Lends.apart`, `Lends.length_le` : tokens that are lent have
  different addresses in the arena, on the grid, and different bytes, and there are not too many of them;
* `acquire_uniform` : what `acquire` does depends on the tiling and the place of the arena;
* `Lends.acquire_cases`, `Lends.release`, `Lends.write` : what the operations do to the tokens that are
  lent, each sparing all other tokens;
* `Lends.init`, `Lends.deinit` : nothing is lent at first, nor at the end;
* `Allocator.Outside` : addresses that an allocator refuses (`release_outside`, `resize_outside`).
-/

namespace ArenaHeap

open Tiling

/-! ## Claims -/

theorem Layout.of?_eq_some_iff {size : UInt64} {alignment : PowerOfTwo} {layout : Layout} :
    Layout.of? size alignment = some layout ↔ layout.size = size ∧ layout.alignment = alignment := by
  unfold Layout.of?
  constructor
  · intro h
    split at h
    · cases h
      exact ⟨rfl, rfl⟩
    · cases h
  · rintro ⟨rfl, rfl⟩
    exact dif_pos layout.fits

/-- A claim asks for no layout at all, is refused, or is granted. -/
theorem Arena.claim_cases (store : BackingStore) (size : UInt64) (alignment : PowerOfTwo) :
    (Layout.of? size alignment = none ∧ Arena.claim store size alignment = (none, store)) ∨
      ∃ layout, Layout.of? size alignment = some layout ∧
        ((store.answer store.requests layout = none ∧
            Arena.claim store size alignment = (none, { store with requests := store.requests + 1 })) ∨
          ∃ grant, store.answer store.requests layout = some grant ∧
            Arena.claim store size alignment = (some ⟨grant.base, layout, .blank grant.contents⟩,
              { store with
                requests := store.requests + 1
                history := .claimed grant.base layout :: store.history })) := by
  unfold Arena.claim
  cases hlayout : Layout.of? size alignment with
  | none => exact Or.inl ⟨rfl, rfl⟩
  | some layout =>
    refine Or.inr ⟨layout, rfl, ?_⟩
    unfold BackingStore.claim
    cases hanswer : store.answer store.requests layout with
    | none => exact Or.inl ⟨rfl, by simp only [hanswer]⟩
    | some grant => exact Or.inr ⟨grant, rfl, by simp only [hanswer]⟩

namespace Allocator

variable {g : Geometry} {a a' a'' : Allocator g} {toks toks' : List Token} {t : Token}

/-- The allocator handed out what the tokens stand for, and nothing else. -/
inductive Lends : Allocator g → List Token → Prop
  | bare (store : BackingStore) : Lends ⟨store, none⟩ []
  | lent (store : BackingStore) {s : BlockSpace g} {ts : List Tile} {toks : List Token} (hs : s.Sound ts)
    (hp : toks.Perm (s.tokens ts)) : Lends ⟨store, some s⟩ toks

/-- The tokens of the blocks that are handed out, in physical order. -/
def lent (a : Allocator g) : List Token :=
  match a.space with
  | none => []
  | some s => s.allocated.map s.loan

/-- Where the arena starts, and its layout. -/
def extent (a : Allocator g) : Option (UInt64 × Layout) := a.space.map fun s => (s.arena.base, s.arena.layout)

/-- The arena stays, and no store was asked for another. -/
structure Stays (a a' : Allocator g) : Prop where
  store : a'.store = a.store
  extent : a'.extent = a.extent

theorem isInitialized_of_extent (h : a'.extent = a.extent) : a'.isInitialized = a.isInitialized := by
  have hsome := congrArg Option.isSome h
  rw [extent, extent, Option.isSome_map, Option.isSome_map] at hsome
  exact hsome

/-- The arena stays, and the holders of the tokens find the bytes that they found before. -/
structure Spares (a a' : Allocator g) (toks : List Token) : Prop where
  store : a'.store = a.store
  extent : a'.extent = a.extent
  bytes : ∀ t ∈ toks, ∀ n ≤ t.size.toNat, a'.read t.address n = a.read t.address n

namespace Spares

theorem refl (a : Allocator g) (toks : List Token) : a.Spares a toks := ⟨rfl, rfl, fun _ _ _ _ => rfl⟩

theorem trans (h : a.Spares a' toks) (h' : a'.Spares a'' toks) : a.Spares a'' toks :=
  ⟨h'.store.trans h.store, h'.extent.trans h.extent, fun t ht n hn =>
    (h'.bytes t ht n hn).trans (h.bytes t ht n hn)⟩

theorem mono (h : a.Spares a' toks) (hsub : ∀ t ∈ toks', t ∈ toks) : a.Spares a' toks' :=
  ⟨h.store, h.extent, fun t ht => h.bytes t (hsub t ht)⟩

theorem stays (h : a.Spares a' toks) : a.Stays a' := ⟨h.store, h.extent⟩

end Spares

namespace Lends

theorem perm (h : a.Lends toks) (hp : toks.Perm toks') : a.Lends toks' := by
  cases h with
  | bare store =>
    rw [List.nil_perm.mp hp]
    exact bare store
  | lent store hs hp' => exact lent store hs (hp.symm.trans hp')

theorem eq_nil (h : a.Lends toks) (hbare : a.space = none) : toks = [] := by
  cases h with
  | bare store => rfl
  | lent store hs hp => cases hbare

theorem allocated (h : a.Lends toks) {s : BlockSpace g} (hs : a.space = some s) :
    toks.Perm (s.allocated.map s.loan) := by
  cases h with
  | bare store => cases hs
  | lent store hsound hp =>
    cases hs
    rw [hsound.map_loan]
    exact hp

theorem token_of_mem (h : a.Lends toks) {s : BlockSpace g} (hs : a.space = some s) {ts : List Tile}
    (hsound : s.Sound ts) (ht : t ∈ toks) : ∃ p ∈ live g.front 0 ts, s.token p = t := by
  have hlent := (h.allocated hs).mem_iff.mp ht
  rw [hsound.map_loan] at hlent
  exact List.mem_map.mp hlent

theorem perm_lent (h : a.Lends toks) : toks.Perm a.lent := by
  cases h with
  | bare store => exact .refl _
  | lent store hsound hp =>
    unfold Allocator.lent
    simp only
    rw [hsound.map_loan]
    exact hp

theorem sound (h : a.Lends toks) {s : BlockSpace g} (hs : a.space = some s) : ∃ ts, s.Sound ts := by
  cases h with
  | bare store => cases hs
  | lent store hsound _ =>
    cases hs
    exact ⟨_, hsound⟩

theorem mem_iff {s : BlockSpace g} {ts : List Tile} (hp : toks.Perm (s.tokens ts)) :
    t ∈ toks ↔ ∃ p ∈ live g.front 0 ts, s.token p = t := by
  rw [hp.mem_iff, BlockSpace.tokens, List.mem_map]

end Lends

theorem Lends.nodup (h : a.Lends toks) : (toks.map Token.address).Nodup := by
  cases h with
  | bare store => exact List.nodup_nil
  | @lent store s ts _ hs hp =>
    have hfront := g.le_front
    rw [(hp.map Token.address).nodup_iff, BlockSpace.tokens, List.map_map]
    refine List.Nodup.map_on ?_ (live_nodup (by omega) ts)
    intro p hp q hq he
    exact hs.token_inj hp hq he

theorem Lends.inside (h : a.Lends toks) (ht : t ∈ toks) : ∃ s, a.space = some s ∧
    s.arena.base.toNat + g.front ≤ t.address.toNat ∧
    t.address.toNat + t.size.toNat ≤ s.arena.base.toNat + s.capacity.toNat ∧ 0 < t.size.toNat := by
  cases h with
  | bare store => cases ht
  | @lent store s ts _ hs hp =>
    obtain ⟨p, hmem, rfl⟩ := (mem_iff hp).mp ht
    obtain ⟨hle, -, -, hpos⟩ := hs.bounds hmem
    obtain ⟨haddress, hsize⟩ := hs.toNat_token hmem
    refine ⟨s, rfl, ?_⟩
    rw [haddress, hsize]
    omega

theorem Lends.isInitialized (h : a.Lends toks) (ht : t ∈ toks) :
    a.isInitialized = true := by
  obtain ⟨s, hs, -⟩ := h.inside ht
  unfold Allocator.isInitialized
  rw [hs]
  rfl

theorem Lends.placed (h : a.Lends toks) (ht : t ∈ toks) :
    g.grid ∣ t.address.toNat ∧ t.address.toNat + t.size.toNat ≤ 2 ^ 64 := by
  cases h with
  | bare store => cases ht
  | @lent store s ts _ hs hp =>
    obtain ⟨p, hmem, rfl⟩ := (mem_iff hp).mp ht
    obtain ⟨hle, hgrid, -, -⟩ := hs.bounds hmem
    obtain ⟨haddress, hsize⟩ := hs.toNat_token hmem
    have hfits : s.arena.base.toNat + s.capacity.toNat ≤ 2 ^ 64 := hs.placed.fits
    rw [haddress, hsize]
    exact ⟨Nat.dvd_add hs.placed.aligned (Nat.dvd_add hgrid g.front_dvd), by omega⟩

/-- Different tokens are of different bytes. -/
theorem Lends.apart (h : a.Lends toks) {t' : Token} (ht : t ∈ toks) (ht' : t' ∈ toks)
    (hne : t.address ≠ t'.address) : t.address.toNat + t.size.toNat ≤ t'.address.toNat ∨
      t'.address.toNat + t'.size.toNat ≤ t.address.toNat := by
  cases h with
  | bare store => cases ht
  | @lent store s ts _ hs hp =>
    obtain ⟨p, hmem, rfl⟩ := (mem_iff hp).mp ht
    obtain ⟨q, hmem', rfl⟩ := (mem_iff hp).mp ht'
    obtain ⟨haddress, hsize⟩ := hs.toNat_token hmem
    obtain ⟨haddress', hsize'⟩ := hs.toNat_token hmem'
    rw [haddress, hsize, haddress', hsize']
    rcases BlockSpace.live_apart hmem hmem' with rfl | hlt | hlt
    · exact absurd rfl hne
    · omega
    · omega

theorem Lends.address_ne_zero (h : a.Lends toks) (ht : t ∈ toks) : t.address ≠ 0 := by
  obtain ⟨s, -, hlo, -, -⟩ := h.inside ht
  have hfront := g.le_front
  intro hz
  rw [hz] at hlo
  have hzero : (0 : UInt64).toNat = 0 := rfl
  omega

theorem Lends.length_le (h : a.Lends toks) : toks.length ≤ (a.space.map BlockSpace.blockBound).getD 0 := by
  cases h with
  | bare store => exact Nat.le_refl 0
  | @lent store s ts _ hs hp =>
    have hle := hs.shows.length_le hs.proper
    rw [hp.length_eq, BlockSpace.tokens, List.length_map]
    exact (length_live_le 0 ts).trans hle

theorem spares_of_frame (store : BackingStore) {s s' : BlockSpace g} {ts : List Tile}
    {lives : List (Nat × Nat)} (hs : s.Sound ts) (hsub : ∀ p ∈ lives, p ∈ live g.front 0 ts)
    (hf : s.Frame s' fun i => ¬ Usable g.front lives i) (hp : toks.Perm (lives.map s.token)) :
    Spares ⟨store, some s⟩ ⟨store, some s'⟩ toks := by
  have hcap := s.capacity_lt
  refine ⟨rfl, ?_, ?_⟩
  · simp only [extent, Option.map_some, hf.base, hf.layout]
  · intro t ht n hn
    obtain ⟨p, hp, rfl⟩ := List.mem_map.mp (hp.mem_iff.mp ht)
    have hle := (hs.bounds (hsub p hp)).1
    rw [(hs.toNat_token (hsub p hp)).2] at hn
    refine hf.read (by omega) fun i hlo hhi hi => hi ⟨p, hp, hlo, by omega⟩

/-- The tokens of what is handed out after a change are lent. -/
theorem lends_of_frame (store : BackingStore) {s s' : BlockSpace g} {ts' : List Tile} {lives : List (Nat × Nat)}
    {W : Nat → Prop} (hs' : s'.Sound ts') (hf : s.Frame s' W) (hlive : (live g.front 0 ts').Perm lives)
    (hp : toks.Perm (lives.map s.token)) : Lends ⟨store, some s'⟩ toks := by
  refine .lent store hs' ?_
  unfold BlockSpace.tokens
  rw [hf.token]
  exact hp.trans (hlive.map s.token).symm

/-! ## Acquiring -/

theorem tokenAt_eq {s : BlockSpace g} {ts : List Tile} {p : Nat × Nat} (hs : s.Sound ts)
    (hp : p ∈ live g.front 0 ts) : tokenAt s (.ofNat p.1) = s.token p := by
  unfold tokenAt
  rw [hs.block_live hp]
  rfl

section Exact

variable (hg : g.Exact)
include hg

/-- What `acquire` does, whatever sound space it is: nothing, or hand out a tile. -/
theorem acquire_uniform {ts : List Tile} (hproper : Proper g ts) (size : UInt64) :
    (∃ fault, ∀ (store : BackingStore) (s : BlockSpace g), s.Sound ts →
        acquire ⟨store, some s⟩ size = (.error fault, ⟨store, some s⟩)) ∨
      ∃ p ts', HandsOut g ts p ts' ∧ size.toNat ≤ p.2 ∧ ∀ (store : BackingStore) (s : BlockSpace g),
        s.Sound ts → ∃ s', acquire ⟨store, some s⟩ size = (.ok (s.token p), ⟨store, some s'⟩) ∧
          s.Becomes s' ts' ∧ s'.Sound ts' := by
  cases haligned : g.alignedSize size (.ofNat (span g.front ts)) with
  | error fault =>
    refine Or.inl ⟨fault, fun store s hs => ?_⟩
    simp only [acquire, hs.shows.capacity_eq, haligned]
  | ok aligned =>
    obtain ⟨hgrid, hpos, henough⟩ := Geometry.alignedSize_serves haligned
    have hword : UInt64.ofNat aligned.toNat = aligned := UInt64.ofNat_toNat
    rcases BlockSpace.firstFit_uniform hg hproper hgrid hpos aligned.toNat_lt with
      hnone | ⟨p, ts', hout, hle, hfirst⟩
    · refine Or.inl ⟨.exhausted size, fun store s hs => ?_⟩
      have hrefused := hnone s hs.shows
      rw [hword] at hrefused
      simp only [acquire, hs.shows.capacity_eq, haligned, hrefused]
    · refine Or.inr ⟨p, ts', hout, henough.trans hle, fun store s hs => ?_⟩
      obtain ⟨s', hsome, hb⟩ := hfirst s hs.shows
      have hs' := hs.becomes hb hout.proper
      rw [hword] at hsome
      refine ⟨s', ?_, hb, hs'⟩
      simp only [acquire, hs.shows.capacity_eq, haligned, hsome, tokenAt_eq hs' hout.mem, hb.frame.token]

omit hg in
/-- No block is handed out for no bytes. -/
theorem ne_zero_of_acquire {size : UInt64} (h : a.acquire size = (.ok t, a')) : size ≠ 0 := by
  rintro rfl
  unfold acquire at h
  split at h
  · cases h
  · rw [Geometry.alignedSize, if_pos rfl] at h
    cases h

/-- What `acquire` can do: nothing, or lend one more token. -/
theorem Lends.acquire_cases (h : a.Lends toks) (size : UInt64) :
    (∃ fault, a.acquire size = (.error fault, a)) ∨
      ∃ t a', a.acquire size = (.ok t, a') ∧ size.toNat ≤ t.size.toNat ∧ a'.Lends (t :: toks) ∧
        a.Spares a' toks := by
  cases h with
  | bare store => exact Or.inl ⟨.uninitialized, rfl⟩
  | @lent store s ts toks hs hp =>
    rcases acquire_uniform hg hs.proper size with ⟨fault, hrefused⟩ | ⟨p, ts', hout, hle, hacquire⟩
    · exact Or.inl ⟨fault, hrefused store s hs⟩
    · obtain ⟨s', he, hb, hs'⟩ := hacquire store s hs
      refine Or.inr ⟨s.token p, ⟨store, some s'⟩, he, ?_, ?_, ?_⟩
      · rw [← hb.frame.token, (hs'.toNat_token hout.mem).2]
        exact hle
      · exact lends_of_frame store hs' hb.frame hout.lives (hp.cons _)
      · exact spares_of_frame store hs (fun q hq => hq) (hb.frame_usable fun q => hout.mem_of) hp

end Exact

/-! ## Releasing -/

theorem release_token (store : BackingStore) {s : BlockSpace g} {ts : List Tile} {p : Nat × Nat} (hs : s.Sound ts)
    (hp : p ∈ live g.front 0 ts) :
    release ⟨store, some s⟩ (s.token p) = (.ok (), ⟨store, some (s.reclaim (.ofNat p.1))⟩) := by
  simp only [release, hs.lookupByTag hp]

theorem Lends.release (h : a.Lends (t :: toks)) :
    ∃ a', a.release t = (.ok (), a') ∧ a'.Lends toks ∧ a.Spares a' toks := by
  cases h with
  | @lent store s ts _ hs hp =>
    obtain ⟨p, hmem, rfl⟩ := (mem_iff hp).mp List.mem_cons_self
    obtain ⟨ts', hb, hs', hlive⟩ := hs.reclaim hmem
    have hrest : toks.Perm (s.tokens ts') := (hp.trans (hlive.map s.token)).cons_inv
    refine ⟨_, release_token store hs hmem, lends_of_frame store hs' hb.frame (.refl _) hrest, ?_⟩
    refine spares_of_frame store hs ?_ (hb.frame_usable fun q hq => hq) hrest
    intro q hq
    exact hlive.mem_iff.mpr (List.mem_cons_of_mem _ hq)

/-! ## Bytes -/

theorem Lends.write (h : a.Lends (t :: toks)) {place : Nat} {bytes : List UInt8}
    (hfit : place + bytes.length ≤ t.size.toNat) :
    (a.write (t.address + .ofNat place) bytes).Lends (t :: toks) ∧
      a.Spares (a.write (t.address + .ofNat place) bytes) toks := by
  cases h with
  | @lent store s ts _ hs hp =>
    obtain ⟨p, hmem, rfl⟩ := (mem_iff hp).mp List.mem_cons_self
    have hsplit : (live g.front 0 ts).Perm (p :: (live g.front 0 ts).erase p) := List.perm_cons_erase hmem
    have hrest : toks.Perm (((live g.front 0 ts).erase p).map s.token) :=
      (hp.trans (hsplit.map s.token)).cons_inv
    rw [(hs.toNat_token hmem).2] at hfit
    obtain ⟨hs', hf⟩ := hs.write_bytes hmem hfit
    have hfront := g.le_front
    refine ⟨lends_of_frame store hs' hf (.refl _) hp, ?_⟩
    refine spares_of_frame store hs (fun r hr => List.mem_of_mem_erase hr) (hf.mono ?_) hrest
    intro i hi
    exact BlockSpace.not_usable_of_perm (by omega) hsplit hi.1 hi.2

/-! ## The arena -/

theorem capacity_fresh (arena : Arena) : (BlockSpace.fresh g arena).capacity = arena.size := by
  unfold BlockSpace.fresh
  rw [BlockSpace.capacity_write]
  rfl

section Exact

variable (hg : g.Exact)
include hg

theorem proper_fresh {n : Nat} (hgrid : g.grid ∣ n) (hroom : g.front + g.least ≤ n) :
    Proper g [⟨n - g.front, true⟩] := by
  have hleast := Geometry.least_pos hg
  refine proper_singleton (Nat.dvd_sub hgrid g.front_dvd) ?_
  show 0 < n - g.front
  omega

theorem fresh_sound {arena : Arena} (hplaced : arena.Placed g) (hgrid : g.grid ∣ arena.size.toNat)
    (hroom : g.front + g.least ≤ arena.size.toNat) :
    (BlockSpace.fresh g arena).Sound [⟨arena.size.toNat - g.front, true⟩] := by
  have hleast := Geometry.least_pos hg
  refine ⟨BlockSpace.fresh_shows arena (by omega), proper_fresh hg hgrid hroom, ?_,
    by rw [capacity_fresh]; omega⟩
  unfold BlockSpace.fresh
  refine ⟨?_, ?_⟩
  · rw [BlockSpace.base_write]
    exact hplaced.aligned
  · rw [BlockSpace.base_write, Arena.size, BlockSpace.layout_write]
    exact hplaced.fits

end Exact

theorem extent_fresh (store : BackingStore) (arena : Arena) :
    extent ⟨store, some (.fresh g arena)⟩ = some (arena.base, arena.layout) := by
  simp only [extent, BlockSpace.fresh, Option.map_some, BlockSpace.base_write, BlockSpace.layout_write]

theorem claim_size {store store' : BackingStore} {size : UInt64} {alignment : PowerOfTwo} {arena : Arena}
    (h : Arena.claim store size alignment = (some arena, store')) : arena.size = size := by
  rcases Arena.claim_cases store size alignment with ⟨-, he⟩ | ⟨layout, hlayout, ⟨-, he⟩ | ⟨grant, -, he⟩⟩
  all_goals rw [he] at h
  · cases h
  · cases h
  · cases h
    exact (Layout.of?_eq_some_iff.mp hlayout).1

theorem claim_zeroed {accepts : Layout → Bool} {base size : UInt64} {alignment : PowerOfTwo} {arena : Arena}
    (h : (Arena.claim (.zeroed accepts base) size alignment).1 = some arena) :
    arena.base = base ∧ arena.size = size := by
  refine ⟨?_, claim_size (Prod.ext h rfl)⟩
  rcases Arena.claim_cases (.zeroed accepts base) size alignment with
    ⟨-, he⟩ | ⟨layout, -, ⟨-, he⟩ | ⟨grant, hgrant, he⟩⟩
  all_goals rw [he] at h
  · cases h
  · cases h
  · cases h
    unfold BackingStore.zeroed at hgrant
    simp only at hgrant
    split at hgrant
    · rw [← Option.some.inj hgrant]
    · cases hgrant

theorem claim_none {store store' : BackingStore} {size : UInt64} {alignment : PowerOfTwo}
    (h : Arena.claim store size alignment = (none, store')) : store'.history = store.history := by
  rcases Arena.claim_cases store size alignment with ⟨-, he⟩ | ⟨layout, -, ⟨-, he⟩ | ⟨grant, -, he⟩⟩
  all_goals rw [he] at h
  · cases h
    rfl
  · cases h
    rfl
  · cases h

/-- What `init` can do: nothing but ask, or start with a fresh arena where there was none. -/
theorem init_cases (a : Allocator g) (capacity : UInt64) :
    (∃ fault store, a.init capacity = (.error fault, ⟨store, a.space⟩) ∧ store.history = a.store.history) ∨
      ∃ arena store, a.init capacity = (.ok (), ⟨store, some (.fresh g arena)⟩) ∧ a.space = none ∧
        (Arena.claim a.store (g.arenaSize capacity) g.granularity).1 = some arena ∧
        arena.size = g.arenaSize capacity ∧ g.minimumCapacity ≤ g.arenaSize capacity := by
  unfold init
  by_cases hready : a.isInitialized = true
  · rw [if_pos hready]
    exact Or.inl ⟨_, _, rfl, rfl⟩
  rw [if_neg hready]
  by_cases hsmall : g.arenaSize capacity < g.minimumCapacity
  · rw [if_pos hsmall]
    exact Or.inl ⟨_, _, rfl, rfl⟩
  rw [if_neg hsmall]
  rcases hclaim : Arena.claim a.store (g.arenaSize capacity) g.granularity with ⟨_ | arena, store⟩
  · exact Or.inl ⟨_, _, rfl, claim_none hclaim⟩
  · refine Or.inr ⟨arena, store, rfl, ?_, rfl, claim_size hclaim, UInt64.not_lt.mp hsmall⟩
    cases hspace : a.space with
    | none => rfl
    | some s => exact absurd (by rw [isInitialized, hspace]; rfl) hready

/-- An arena lends nothing when it is claimed, and a request that fails changes no loan. -/
theorem Lends.init (hg : g.Exact) (h : a.Lends toks) (capacity : UInt64)
    (hplaced : ∀ arena, (Arena.claim a.store (g.arenaSize capacity) g.granularity).1 = some arena →
      arena.Placed g) : (a.init capacity).2.Lends toks := by
  rcases init_cases a capacity with ⟨fault, store, he, -⟩ | ⟨arena, store, he, hnone, hclaim, hsize, hroom⟩
  · rw [he]
    cases h with
    | bare _ => exact bare store
    | lent _ hs hp => exact lent store hs hp
  · rw [he]
    have hgrid := g.dvd_arenaSize capacity
    have hleast := Geometry.le_arenaSize hg hroom
    rw [← hsize] at hgrid hleast
    cases h with
    | bare _ => exact lent store (fresh_sound hg (hplaced arena hclaim) hgrid hleast) (List.Perm.refl [])
    | lent _ hs hp => cases hnone

theorem deinit_eq (a : Allocator g) : a.deinit = ⟨a.drop, none⟩ := by
  obtain ⟨own, _ | s⟩ := a <;> rfl

theorem Lends.deinit (h : a.Lends toks) : a.deinit.Lends [] := by
  cases h with
  | bare store => exact bare store
  | lent store hs hp => exact bare _

/-! ## Addresses of others -/

/-- No cell of the arena has the address. -/
def Outside (a : Allocator g) (address : UInt64) : Prop :=
  ∀ s, a.space = some s → s.arena.offsetOf? address = none

/-- The fault of an address that no arena has. -/
def strange (a : Allocator g) (address : UInt64) : Fault :=
  if a.isInitialized then .foreignPointer address else .uninitialized

theorem lookupByTag_outside {s : BlockSpace g} {address : UInt64} (h : s.arena.offsetOf? address = none) :
    s.lookupByTag address = .error (.foreignPointer address) := by
  simp only [BlockSpace.lookupByTag, BlockSpace.headerOffset, h, bind, Except.bind]

theorem release_outside (h : a.Outside t.address) : a.release t = (.error (a.strange t.address), a) := by
  obtain ⟨store, _ | s⟩ := a
  · rfl
  · simp only [release, lookupByTag_outside (h s rfl)]
    rfl

theorem resize_outside (h : a.Outside t.address) {size : UInt64} (hsize : size ≠ 0) :
    a.resize (some t) size = (.error ⟨a.strange t.address, some t⟩, a) := by
  obtain ⟨store, _ | s⟩ := a
  · simp only [resize, if_neg hsize]
    rfl
  · simp only [resize, if_neg hsize, lookupByTag_outside (h s rfl)]
    rfl

end Allocator

end ArenaHeap
