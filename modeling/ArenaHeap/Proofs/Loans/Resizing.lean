import ArenaHeap.Proofs.Loans.Canonical

/-!
# Resizing

* `BlockSpace.withCopy` : the copy of a move; `Sound.firstFit_copy` : a block is copied to what `firstFit` hands out;
* `Sound.copy_reclaim` : a block is copied to another one and then taken back;
* `BlockSpace.Relocates` : a block has more bytes, here or elsewhere, and its bytes came along;
* `resize_extends`, `resize_moves`, `resize_refused` : `resize` tries to extend, then to move;
* `move_uniform`, `resize_uniform` : what `resize` does depends on the tiling and the place of the arena;
* `Allocator.Regrows`, `Lends.resize_cases` : what `resize` does to the tokens that are lent, sparing all
  others;
* `Lends.resize_congr` : what it answers depends on the tokens and the place alone.
-/

namespace ArenaHeap

open Tiling

variable {g : Geometry} {ts : List Tile} {p q : Nat × Nat}

namespace BlockSpace

variable {s s' : BlockSpace g}

/-! ## Copies -/

/-- The space with the `n` bytes from cell `source` on copied to the cells from `target` on. -/
def withCopy (s : BlockSpace g) (source target n : Nat) : BlockSpace g :=
  { s with arena.memory := s.arena.memory.copy source target n }

theorem frame_withCopy (s : BlockSpace g) (source target n : Nat) :
    s.Frame (s.withCopy source target n) fun i => target ≤ i ∧ i < target + n := by
  refine ⟨rfl, rfl, ?_⟩
  intro i hi
  exact (Memory.get_copy _ _ _ _ _).trans (if_neg hi)

theorem get_withCopy (s : BlockSpace g) (source target : Nat) {n k : Nat} (hk : k < n) :
    (s.withCopy source target n).arena.memory.get (target + k) = s.arena.memory.get (source + k) := by
  refine (Memory.get_copy _ _ _ _ _).trans ?_
  rw [if_pos (by omega), Nat.add_sub_cancel_left]

theorem Sound.withCopy (hs : s.Sound ts) (hq : q ∈ live g.front 0 ts) (source : Nat) {n : Nat} (hn : n ≤ q.2) :
    (s.withCopy source (q.1 + g.front) n).Sound ts ∧
      s.Frame (s.withCopy source (q.1 + g.front) n) (fun i => q.1 + g.front ≤ i ∧ i < q.1 + g.front + n) := by
  have hcopy := frame_withCopy s source (q.1 + g.front) n
  exact ⟨hs.of_frame (hcopy.mono fun i hi => ⟨q, hq, hi.1, by omega⟩) rfl, hcopy⟩

/-- A block that `firstFit` hands out is a tile, and bytes are copied to it. -/
theorem Sound.firstFit_copy (hg : g.Exact) (hs : s.Sound ts) {size capacity aligned target : UInt64}
    (haligned : g.alignedSize size capacity = .ok aligned) (hfirst : s.firstFit aligned = some (target, s')) :
    ∃ q ts', HandsOut g ts q ts' ∧ target = .ofNat q.1 ∧ s'.Sound ts' ∧ ∀ t : Token,
      (s'.withCopy (s'.arena.position t.address) (s'.arena.position (s'.address target))
        (min t.size size).toNat).Sound ts' := by
  obtain ⟨hgrid, hpos, henough⟩ := Geometry.alignedSize_serves haligned
  have hword : UInt64.ofNat aligned.toNat = aligned := UInt64.ofNat_toNat
  rcases firstFit_uniform hg hs.proper hgrid hpos aligned.toNat_lt with hnone | ⟨q, ts', hout, hle, hsome⟩
  · have hrefused := hnone s hs.shows
    rw [hword, hfirst] at hrefused
    cases hrefused
  · obtain ⟨s₁, he, hb⟩ := hsome s hs.shows
    rw [hword, hfirst] at he
    cases he
    have hs' := hs.becomes hb hout.proper
    have hposition : s'.arena.position (s'.address (.ofNat q.1)) = q.1 + g.front := hs'.position hout.mem
    refine ⟨q, ts', hout, rfl, hs', fun t => ?_⟩
    have hmin : (min t.size size).toNat ≤ size.toNat := by
      show (if t.size ≤ size then t.size else size).toNat ≤ size.toNat
      split
      · exact UInt64.le_iff_toNat_le.mp ‹_›
      · exact Nat.le_refl _
    rw [hposition]
    exact (hs'.withCopy hout.mem _ (by omega)).1

/-- A block `p` that is copied to another block `q` and then taken back. Only usable cells of `q` are
written before, and only headers after. -/
theorem Sound.copy_reclaim (hs : s.Sound ts) (hp : p ∈ live g.front 0 ts) (hq : q ∈ live g.front 0 ts)
    (hne : p ≠ q) {n : Nat} (hn : n ≤ q.2) (he : s.withCopy (p.1 + g.front) (q.1 + g.front) n = s') :
    s.Frame s' (fun i => q.1 + g.front ≤ i ∧ i < q.1 + g.front + q.2) ∧
      (∀ i, q.1 + g.front ≤ i → i < q.1 + g.front + q.2 →
        (s'.reclaim (.ofNat p.1)).arena.memory.get i = s'.arena.memory.get i) ∧
      ∃ ts', s'.Becomes (s'.reclaim (.ofNat p.1)) ts' ∧ (s'.reclaim (.ofNat p.1)).Sound ts' ∧
        (live g.front 0 ts).Perm (p :: live g.front 0 ts') := by
  obtain ⟨hs', hcopy⟩ := hs.withCopy hq (p.1 + g.front) hn
  rw [he] at hs' hcopy
  obtain ⟨ts', hb, hs₁, hlive⟩ := hs'.reclaim hp
  have hq' : q ∈ live g.front 0 ts' := (List.mem_cons.mp (hlive.mem_iff.mp hq)).resolve_left (Ne.symm hne)
  exact ⟨hcopy.mono fun i hi => ⟨hi.1, by omega⟩, fun i => hb.get_usable hq', ts', hb, hs₁, hlive⟩

/-- A block that has too few bytes is copied whole. -/
theorem Sound.min_size (hs : s.Sound ts) (hp : p ∈ live g.front 0 ts) {size : UInt64}
    (hmore : p.2 < size.toNat) : min (s.token p).size size = (s.token p).size := by
  refine if_pos (UInt64.le_iff_toNat_le.mpr ?_)
  rw [(hs.toNat_token hp).2]
  omega

/-! ## A block that has more bytes -/

/-- Block `p` became block `q`, which serves `size` bytes and has all bytes of `p`. The other blocks that
are handed out are as they were, with their bytes. -/
structure Relocates (s s' : BlockSpace g) (ts : List Tile) (p q : Nat × Nat) (size : Nat) : Prop where
  lives : ∃ ts', s'.Sound ts' ∧ (live g.front 0 ts').Perm (q :: (live g.front 0 ts).erase p)
  serves : size ≤ q.2
  larger : p.2 ≤ q.2
  moves : q.1 ≠ p.1 → p.2 < size
  frame : s.Frame s' fun i => ¬ Usable g.front ((live g.front 0 ts).erase p) i
  bytes : ∀ k < p.2, s'.arena.memory.get (q.1 + g.front + k) = s.arena.memory.get (p.1 + g.front + k)

theorem Relocates.refl (hs : s.Sound ts) (hp : p ∈ live g.front 0 ts) {size : Nat} (hsize : size ≤ p.2) :
    s.Relocates s ts p p size :=
  ⟨⟨ts, hs, List.perm_cons_erase hp⟩, hsize, Nat.le_refl _, fun hne => absurd rfl hne, .refl _ _,
    fun _ _ => rfl⟩

theorem Relocates.extend {m size : Nat} {ts' : List Tile} {rest : List (Nat × Nat)}
    (hp : p ∈ live g.front 0 ts) (hs' : s'.Sound ts') (hb : s.Becomes s' ts')
    (hlive : (live g.front 0 ts).Perm (p :: rest)) (hlive' : (live g.front 0 ts').Perm ((p.1, m) :: rest))
    (hmore : p.2 < m) (hsize : size ≤ m) : s.Relocates s' ts p (p.1, m) size := by
  have hrest : rest.Perm ((live g.front 0 ts).erase p) :=
    (hlive.symm.trans (List.perm_cons_erase hp)).cons_inv
  have hall := hlive'.trans (hrest.cons _)
  have hself : (p.1, m) ∈ live g.front 0 ts' := hlive'.mem_iff.mpr List.mem_cons_self
  refine ⟨⟨ts', hs', hall⟩, hsize, Nat.le_of_lt hmore, fun hne => absurd rfl hne, ?_, ?_⟩
  · exact hb.frame_usable fun r hr => hall.mem_iff.mpr (List.mem_cons_of_mem _ hr)
  · intro k hk
    exact hb.get_usable hself (Nat.le_add_right _ _) (by simp only; omega)

theorem Relocates.read {size : Nat} (h : s.Relocates s' ts p q size) (hs : s.Sound ts)
    (hp : p ∈ live g.front 0 ts) :
    s'.arena.read (s.token q).address p.2 = s.arena.read (s.token p).address p.2 := by
  obtain ⟨ts', hs', hlive⟩ := h.lives
  have hposition := hs'.position (hlive.mem_iff.mpr List.mem_cons_self)
  rw [h.frame.token] at hposition
  rw [Arena.read, Arena.read, hs.position hp, hposition]
  exact List.map_congr_left fun k hk => h.bytes k (List.mem_range.mp hk)

end BlockSpace

namespace Allocator

open BlockSpace

variable {a a' : Allocator g} {toks toks' : List Token} {t : Token}

/-! ## Moving -/

theorem move_eq (s : BlockSpace g) (t : Token) (offset size aligned : UInt64) :
    move s t offset size aligned = (s.firstFit aligned).map fun r =>
      let s' := r.2.withCopy (r.2.arena.position t.address) (r.2.arena.position (r.2.address r.1))
        (min t.size size).toNat
      (tokenAt (s'.reclaim offset) r.1, s'.reclaim offset) := by
  unfold move
  cases s.firstFit aligned <;> rfl

/-- A block moves to the tile that `firstFit` hands out: it is copied there, and then taken back. -/
theorem move_eq_some {s s₁ : BlockSpace g} {ts₁ : List Tile} {n : Nat} {size : UInt64} (hs : s.Sound ts)
    (hp : p ∈ live g.front 0 ts) (hmore : p.2 < size.toNat) (hout : HandsOut g ts q ts₁) (hq : p.2 ≤ q.2)
    (hsome : s.firstFit (.ofNat n) = some (.ofNat q.1, s₁)) (hb₁ : s.Becomes s₁ ts₁) :
    move s (s.token p) (.ofNat p.1) size (.ofNat n) =
      some (s.token q, (s₁.withCopy (p.1 + g.front) (q.1 + g.front) p.2).reclaim (.ofNat p.1)) := by
  have hs₁ := hs.becomes hb₁ hout.proper
  have hp₁ := hout.mem_of hp
  have htoken := hb₁.frame.token
  have hsource := hs₁.position hp₁
  have htarget : s₁.arena.position (s₁.address (.ofNat q.1)) = q.1 + g.front := hs₁.position hout.mem
  rw [htoken] at hsource
  obtain ⟨hcopy, -, ts₃, hb₃, hs₃, hlive₃⟩ := hs₁.copy_reclaim hp₁ hout.mem (hout.ne hp) hq rfl
  have hq₃ : q ∈ live g.front 0 ts₃ :=
    (List.mem_cons.mp (hlive₃.mem_iff.mp hout.mem)).resolve_left (Ne.symm (hout.ne hp))
  rw [move_eq, hsome, Option.map_some]
  simp only [hs.min_size hp hmore, (hs.toNat_token hp).2, hsource, htarget]
  rw [tokenAt_eq hs₃ hq₃, hb₃.frame.token, hcopy.token, htoken]

/-- What `move` does, whatever sound space it is: nothing because no free tile is large enough, or hand
out another tile with the bytes of the first. -/
theorem move_uniform (hg : g.Exact) (hproper : Proper g ts) (hp : p ∈ live g.front 0 ts) {n : Nat}
    (hgrid : g.grid ∣ n) (hpos : 0 < n) (hn : n < 2 ^ 64) {size : UInt64} (hmore : p.2 < size.toNat)
    (hsize : size.toNat ≤ n) :
    (∀ s : BlockSpace g, s.Sound ts → move s (s.token p) (.ofNat p.1) size (.ofNat n) = none) ∨
      ∃ q, ∀ s : BlockSpace g, s.Sound ts → ∃ s',
        move s (s.token p) (.ofNat p.1) size (.ofNat n) = some (s.token q, s') ∧
          s.Relocates s' ts p q size.toNat := by
  rcases BlockSpace.firstFit_uniform hg hproper hgrid hpos hn with hnone | ⟨q, ts₁, hout, hle, hfirst⟩
  · exact Or.inl fun s hs => by rw [move_eq, hnone s hs.shows, Option.map_none]
  refine Or.inr ⟨q, fun s hs => ?_⟩
  obtain ⟨s₁, hsome, hb₁⟩ := hfirst s hs.shows
  have hs₁ := hs.becomes hb₁ hout.proper
  have hp₁ := hout.mem_of hp
  have hmove := move_eq_some hs hp hmore hout (by omega) hsome hb₁
  obtain ⟨s₂, hs₂⟩ : ∃ s₂, s₁.withCopy (p.1 + g.front) (q.1 + g.front) p.2 = s₂ := ⟨_, rfl⟩
  obtain ⟨hcopy, hkept, ts₃, hb₃, hs₃, hlive₃⟩ := hs₁.copy_reclaim hp₁ hout.mem (hout.ne hp) (by omega) hs₂
  have hrest : (live g.front 0 ts₃).Perm (q :: (live g.front 0 ts).erase p) := by
    apply List.Perm.cons_inv (a := p)
    exact hlive₃.symm.trans (hout.lives.trans (((List.perm_cons_erase hp).cons q).trans (List.Perm.swap p q _)))
  rw [hs₂] at hmove
  refine ⟨s₂.reclaim (.ofNat p.1), hmove, ⟨ts₃, hs₃, hrest⟩, by omega, by omega, fun _ => hmore, ?_, ?_⟩
  · -- Neither what `firstFit` writes, nor the copy, nor what `reclaim` writes is a byte of another block.
    refine (hb₁.frame_usable ?_).trans ((hcopy.mono ?_).trans (hb₃.frame_usable ?_))
    · exact fun r hr => hout.mem_of (List.mem_of_mem_erase hr)
    · intro i hi hu
      obtain ⟨r, hr, hlo, hhi⟩ := hu
      have hfront := g.le_front
      exact BlockSpace.not_usable_of_perm (by omega) hout.lives hi.1 hi.2
        ⟨r, List.mem_of_mem_erase hr, hlo, hhi⟩
    · exact fun r hr => hrest.mem_iff.mpr (List.mem_cons_of_mem _ hr)
  · intro k hk
    rw [hkept _ (Nat.le_add_right _ _) (by omega), ← hs₂, get_withCopy _ _ _ hk]
    exact hb₁.get_usable hp₁ (Nat.le_add_right _ _) (by omega)

/-! ## Resizing -/

theorem lt_of_lt_aligned {m : Nat} {size capacity aligned : UInt64}
    (h : g.alignedSize size capacity = .ok aligned) (hgrid : g.grid ∣ m) (hlt : m < aligned.toNat) :
    m < size.toNat := by
  obtain ⟨-, -, hnat⟩ := Geometry.alignedSize_eq_ok h
  by_contra hle
  have haligned := leastMultiple_le g.grid_pos hgrid (by omega : size.toNat ≤ m)
  omega

section Paths

variable {s s' : BlockSpace g} {size aligned usable : UInt64} {t' : Token}

theorem resize_extends (store : BackingStore) (hs : s.Sound ts) (hp : p ∈ live g.front 0 ts) (hsize : size ≠ 0)
    (haligned : g.alignedSize size s.capacity = .ok aligned)
    (he : s.extend (.ofNat p.1) aligned = some (usable, s')) : resize ⟨store, some s⟩ (some (s.token p)) size =
      (.ok (some ⟨(s.token p).address, usable⟩), ⟨store, some s'⟩) := by
  simp only [resize, if_neg hsize, hs.lookupByTag hp, haligned, he]

theorem resize_moves (store : BackingStore) (hs : s.Sound ts) (hp : p ∈ live g.front 0 ts) (hsize : size ≠ 0)
    (haligned : g.alignedSize size s.capacity = .ok aligned) (he : s.extend (.ofNat p.1) aligned = none)
    (hmove : move s (s.token p) (.ofNat p.1) size aligned = some (t', s')) :
    resize ⟨store, some s⟩ (some (s.token p)) size = (.ok (some t'), ⟨store, some s'⟩) := by
  simp only [resize, if_neg hsize, hs.lookupByTag hp, haligned, he, hmove]

theorem resize_refused (store : BackingStore) (hs : s.Sound ts) (hp : p ∈ live g.front 0 ts) (hsize : size ≠ 0)
    (haligned : g.alignedSize size s.capacity = .ok aligned) (he : s.extend (.ofNat p.1) aligned = none)
    (hmove : move s (s.token p) (.ofNat p.1) size aligned = none) :
    resize ⟨store, some s⟩ (some (s.token p)) size =
      (.error ⟨.exhausted size, some (s.token p)⟩, ⟨store, some s⟩) := by
  simp only [resize, if_neg hsize, hs.lookupByTag hp, haligned, he, hmove]

end Paths

section Exact

variable (hg : g.Exact)
include hg

/-- What `resize` does to a block, whatever sound space it is: nothing, or let another block be in its
place. -/
theorem resize_uniform (hproper : Proper g ts) (hp : p ∈ live g.front 0 ts) {size : UInt64} (hsize : size ≠ 0) :
    (∃ fault, ∀ (store : BackingStore) (s : BlockSpace g), s.Sound ts →
        resize ⟨store, some s⟩ (some (s.token p)) size =
          (.error ⟨fault, some (s.token p)⟩, ⟨store, some s⟩)) ∨
      ∃ q, ∀ (store : BackingStore) (s : BlockSpace g), s.Sound ts → ∃ s',
        resize ⟨store, some s⟩ (some (s.token p)) size = (.ok (some (s.token q)), ⟨store, some s'⟩) ∧
          s.Relocates s' ts p q size.toNat := by
  cases haligned : g.alignedSize size (.ofNat (span g.front ts)) with
  | error fault =>
    refine Or.inl ⟨fault, fun store s hs => ?_⟩
    simp only [resize, if_neg hsize, hs.lookupByTag hp, hs.shows.capacity_eq, haligned]
  | ok aligned =>
    obtain ⟨hgrid, hpos, henough⟩ := Geometry.alignedSize_serves haligned
    have hsame (s : BlockSpace g) (hs : s.Sound ts) : g.alignedSize size s.capacity = .ok (.ofNat aligned.toNat) := by
      rw [hs.shows.capacity_eq, haligned, UInt64.ofNat_toNat]
    rcases BlockSpace.extend_uniform hg hproper hp hgrid hpos aligned.toNat_lt with
      ⟨hle, hkeep⟩ | ⟨hmore, hnone⟩ | ⟨m, ts', rest, hmore, hle, hlive, hlive', hextend⟩
    · refine Or.inr ⟨p, fun store s hs => ⟨s, ?_, .refl hs hp (henough.trans hle)⟩⟩
      exact resize_extends store hs hp hsize (hsame s hs) (hkeep s hs)
    · obtain ⟨pre, u, post, rfl, -, rfl⟩ := mem_live hp
      have hshort := lt_of_lt_aligned haligned (hproper.grid u (by simp)) hmore
      rcases move_uniform hg hproper hp hgrid hpos aligned.toNat_lt hshort henough with
        hstuck | ⟨q, hmove⟩
      · exact Or.inl ⟨.exhausted size, fun store s hs =>
          resize_refused store hs hp hsize (hsame s hs) (hnone s hs) (hstuck s hs)⟩
      · refine Or.inr ⟨q, fun store s hs => ?_⟩
        obtain ⟨s', hmoved, hrelocates⟩ := hmove s hs
        exact ⟨s', resize_moves store hs hp hsize (hsame s hs) (hnone s hs) hmoved, hrelocates⟩
    · refine Or.inr ⟨(p.1, m), fun store s hs => ?_⟩
      obtain ⟨s', hsome, hb, hs'⟩ := hextend s hs
      exact ⟨s', resize_extends store hs hp hsize (hsame s hs) hsome,
        .extend hp hs' hb hlive hlive' (by omega) (henough.trans hle)⟩

/-- The block of `t` became that of `t'`, which serves `size` bytes and has all bytes of `t`. -/
structure Regrows (a a' : Allocator g) (t t' : Token) (size : UInt64) : Prop where
  serves : size.toNat ≤ t'.size.toNat
  larger : t.size.toNat ≤ t'.size.toNat
  bytes : a'.read t'.address t.size.toNat = a.read t.address t.size.toNat

/-- What `resize` can do to a token that is lent: nothing, or lend another in its place. -/
theorem Lends.resize_cases (h : a.Lends (t :: toks)) {size : UInt64} (hsize : size ≠ 0) :
    (∃ fault, a.resize (some t) size = (.error ⟨fault, some t⟩, a)) ∨
      ∃ t' a', a.resize (some t) size = (.ok (some t'), a') ∧ a.Regrows a' t t' size ∧
        a'.Lends (t' :: toks) ∧ a.Spares a' toks := by
  cases h with
  | @lent store s ts _ hs hp =>
    obtain ⟨p, hmem, rfl⟩ := (mem_iff hp).mp List.mem_cons_self
    rcases resize_uniform hg hs.proper hmem hsize with ⟨fault, hrefused⟩ | ⟨q, hresize⟩
    · exact Or.inl ⟨fault, hrefused store s hs⟩
    · obtain ⟨s', he, hrelocates⟩ := hresize store s hs
      obtain ⟨ts', hs', hlive'⟩ := hrelocates.lives
      have hf := hrelocates.frame
      have hrest : toks.Perm (((live g.front 0 ts).erase p).map s.token) :=
        (hp.trans ((List.perm_cons_erase hmem).map s.token)).cons_inv
      refine Or.inr ⟨s.token q, ⟨store, some s'⟩, he, ?_, ?_, ?_⟩
      · have hnew := (hs'.toNat_token (hlive'.mem_iff.mpr List.mem_cons_self)).2
        have hold := (hs.toNat_token hmem).2
        rw [hf.token] at hnew
        refine ⟨?_, ?_, ?_⟩
        · rw [hnew]
          exact hrelocates.serves
        · rw [hold, hnew]
          exact hrelocates.larger
        · rw [hold]
          exact hrelocates.read hs hmem
      · exact lends_of_frame store hs' hf hlive' (hrest.cons _)
      · exact spares_of_frame store hs (fun r hr => List.mem_of_mem_erase hr) hf hrest

/-- What `resize` answers depends on what is lent and on the place of the arena. -/
theorem Lends.resize_congr (h : a.Lends toks) (h' : a'.Lends toks') (hextent : a'.extent = a.extent)
    (hperm : toks.Perm toks') (ht : t ∈ toks) {size : UInt64} (hsize : size ≠ 0) :
    (a'.resize (some t) size).1 = (a.resize (some t) size).1 := by
  rcases h.twins h' hextent hperm with ⟨store, store', rfl, rfl⟩ | ⟨store, store', s, s', ts, rfl, rfl, htwins⟩
  · rw [h.eq_nil rfl] at ht
    cases ht
  obtain ⟨p, hp, rfl⟩ := h.token_of_mem rfl htwins.left ht
  rcases resize_uniform hg htwins.left.proper hp hsize with ⟨fault, hrefused⟩ | ⟨q, hresize⟩
  · have hrefused' := hrefused store' s' htwins.right
    rw [htwins.token] at hrefused'
    rw [hrefused store s htwins.left, hrefused']
  · obtain ⟨s₁, he, -⟩ := hresize store s htwins.left
    obtain ⟨s₁', he', -⟩ := hresize store' s' htwins.right
    rw [htwins.token] at he'
    rw [he, he']

end Exact

end Allocator

end ArenaHeap
