import ArenaHeap.Proofs.World.Isolation

/-!
# Resizing preserves data

* `BlockSpace.CopiesApart` : the copy of a move is of bytes that it does not write, and neither does the
  release of the old block write any byte of the copy;
* `BlockSpace.Resized` : what a resize that succeeded made of a space;
* `Relocates.resized`, `Sound.copiesApart` : both hold of sound spaces;
* `Reachable.resize_preserves` : a resize that succeeds preserves data in every reachable world.
-/

namespace ArenaHeap

open Tiling

variable {g : Geometry} {ts : List Tile} {p q : Nat × Nat}

namespace BlockSpace

variable {s s' : BlockSpace g}

/-- Where `resize` moves the block of `t`, all its bytes are copied, from cells that the copy does not
write, and none of those that it writes is written when the old block is taken back (`Allocator.move_eq`
says that these are the steps of a move). -/
def CopiesApart (s : BlockSpace g) (t : Token) (size : UInt64) : Prop :=
  ∀ offset aligned target s₁, s.lookupByTag t.address = .ok offset →
    g.alignedSize size s.capacity = .ok aligned → s.extend offset aligned = none →
    s.firstFit aligned = some (target, s₁) →
    let source := s₁.arena.position t.address
    let destination := s₁.arena.position (s₁.address target)
    let copied := s₁.withCopy source destination (min t.size size).toNat
    min t.size size = t.size ∧
      (source + t.size.toNat ≤ destination ∨ destination + t.size.toNat ≤ source) ∧
      ∀ i, destination ≤ i → i < destination + t.size.toNat →
        (copied.reclaim offset).arena.memory.get i = copied.arena.memory.get i

/-- The block of `t` became that of `t'`. It has as many bytes as were asked for and no fewer than before,
its first bytes are those that it had, and it is somewhere else only if it had too few. All other blocks
that are handed out are as they were, with their bytes. -/
structure Resized (s s' : BlockSpace g) (t t' : Token) (size : UInt64) : Prop where
  serves : max size.toNat t.size.toNat ≤ t'.size.toNat
  aligned : g.grid ∣ t'.address.toNat
  bytes : s'.arena.read t'.address t.size.toNat = s.arena.read t.address t.size.toNat
  moves : t'.address ≠ t.address → t.size < size
  count : s'.allocated.length = s.allocated.length
  blocks : ∃ b b' rest, s.loan b = t ∧ s'.loan b' = t' ∧ s.allocated.Perm (b :: rest) ∧
    s'.allocated.Perm (b' :: rest) ∧
    ∀ c ∈ rest, ∀ i, c.Uses g i → s'.arena.memory.get i = s.arena.memory.get i
  gone : t'.address ≠ t.address → ∀ b ∈ s'.allocated, s'.address b.offset ≠ t.address
  copy : s.CopiesApart t size

/-! ## Moves -/

theorem Sound.copiesApart (hg : g.Exact) (hs : s.Sound ts) (hp : p ∈ live g.front 0 ts) (size : UInt64) :
    s.CopiesApart (s.token p) size := by
  intro offset aligned target s₁ htag haligned hextend hfit
  obtain ⟨hgrid, hpos, henough⟩ := Geometry.alignedSize_serves haligned
  have hword : UInt64.ofNat aligned.toNat = aligned := UInt64.ofNat_toNat
  rw [hs.lookupByTag hp] at htag
  obtain rfl := Except.ok.inj htag
  -- The block has too few bytes, or else `extend` would have let it be.
  have hshort : p.2 < aligned.toNat := by
    rcases extend_uniform hg hs.proper hp hgrid hpos aligned.toNat_lt with
      ⟨-, hsame⟩ | ⟨hmore, -⟩ | ⟨m, ts', rest, hmore, -⟩
    · rw [← hword, hsame s hs] at hextend
      cases hextend
    · exact hmore
    · exact hmore
  have hsize := Allocator.lt_of_lt_aligned haligned (hs.bounds hp).2.2.1 hshort
  rcases firstFit_uniform hg hs.proper hgrid hpos aligned.toNat_lt with hnone | ⟨q, ts₁, hout, hle, hfirst⟩
  · rw [← hword, hnone s hs.shows] at hfit
    cases hfit
  obtain ⟨s₁', hsome, hb₁⟩ := hfirst s hs.shows
  rw [hword, hfit] at hsome
  obtain ⟨rfl, rfl⟩ := Prod.mk.inj (Option.some.inj hsome)
  have hs₁ := hs.becomes hb₁ hout.proper
  have hp₁ := hout.mem_of hp
  have hsource := hs₁.position hp₁
  have htarget : s₁.arena.position (s₁.address (.ofNat q.1)) = q.1 + g.front := hs₁.position hout.mem
  rw [hb₁.frame.token] at hsource
  simp only [hs.min_size hp hsize, hsource, htarget, (hs.toNat_token hp).2]
  obtain ⟨-, hkept, -⟩ := hs₁.copy_reclaim hp₁ hout.mem (hout.ne hp) (show p.2 ≤ q.2 by omega) rfl
  refine ⟨trivial, ?_, fun i hlo hhi => hkept i hlo (by omega)⟩
  rcases live_apart hp₁ hout.mem with heq | hlt | hlt
  · exact absurd heq (hout.ne hp)
  · omega
  · omega

/-! ## Blocks that have more bytes -/

/-- The block of a tile that is handed out. -/
def liveBlock (p : Nat × Nat) : Block := ⟨.ofNat p.1, .allocated (.ofNat p.2)⟩

theorem Sound.uses_iff (hs : s.Sound ts) (hp : p ∈ live g.front 0 ts) (i : Nat) :
    (liveBlock p).Uses g i ↔ p.1 + g.front ≤ i ∧ i < p.1 + g.front + p.2 := by
  have hle := (hs.bounds hp).1
  have hcap := s.capacity_lt
  have hoffset : (liveBlock p).offset.toNat = p.1 := Word.toNat_ofNat (by omega)
  have hsize : (liveBlock p).size.toNat = p.2 := Word.toNat_ofNat (by omega)
  rw [Block.Uses, hoffset, hsize]

theorem Relocates.resized {size : UInt64} (hs : s.Sound ts) (hp : p ∈ live g.front 0 ts)
    (h : s.Relocates s' ts p q size.toNat) (hcopy : s.CopiesApart (s.token p) size) :
    s.Resized s' (s.token p) (s.token q) size := by
  obtain ⟨ts', hs', hlive⟩ := h.lives
  have hfront := g.le_front
  have hq : q ∈ live g.front 0 ts' := hlive.mem_iff.mpr List.mem_cons_self
  have htoken : s'.token = s.token := h.frame.token
  have hsplit : (live g.front 0 ts).Perm (p :: (live g.front 0 ts).erase p) := List.perm_cons_erase hp
  have hold := (hs.toNat_token hp).2
  obtain ⟨haddress', hnew⟩ := hs'.toNat_token hq
  rw [htoken] at haddress' hnew
  have hmoved (hne : (s.token q).address ≠ (s.token p).address) : q.1 ≠ p.1 := by
    intro he
    apply hne
    rw [token, token, he]
  refine ⟨?_, ?_, ?_, ?_, ?_, ?_, ?_, hcopy⟩
  · rw [hold, hnew]
    exact Nat.max_le.mpr ⟨h.serves, h.larger⟩
  · rw [haddress']
    exact Nat.dvd_add hs'.placed.aligned (Nat.dvd_add (hs'.bounds hq).2.1 g.front_dvd)
  · rw [hold]
    exact h.read hs hp
  · intro hne
    rw [UInt64.lt_iff_toNat_lt, hold]
    exact h.moves (hmoved hne)
  · rw [hs.allocated_eq, hs'.allocated_eq, List.length_map, List.length_map, hlive.length_eq,
      hsplit.length_eq, List.length_cons, List.length_cons]
  · refine ⟨liveBlock p, liveBlock q, ((live g.front 0 ts).erase p).map liveBlock, rfl, ?_, ?_, ?_, ?_⟩
    · show s'.token q = s.token q
      rw [htoken]
    · rw [hs.allocated_eq]
      exact hsplit.map liveBlock
    · rw [hs'.allocated_eq]
      exact hlive.map liveBlock
    · intro c hc i hi
      obtain ⟨r, hr, rfl⟩ := List.mem_map.mp hc
      rw [hs.uses_iff (List.mem_of_mem_erase hr)] at hi
      exact h.frame.get i fun hnot => hnot ⟨r, hr, hi.1, hi.2⟩
  · intro hne b hb he
    rw [hs'.allocated_eq, List.mem_map] at hb
    obtain ⟨r, hr, rfl⟩ := hb
    have hsame : (s.token r).address = (s.token p).address :=
      (congrArg Token.address (congrFun htoken r)).symm.trans he
    rcases List.mem_cons.mp (hlive.mem_iff.mp hr) with rfl | hrest
    · exact hne hsame
    · rw [hs.token_inj (List.mem_of_mem_erase hrest) hp hsame] at hrest
      exact not_mem_of_perm (by omega) hsplit hrest

end BlockSpace

/-! ## Worlds -/

namespace Allocator

variable {a a' : Allocator g} {toks : List Token} {t : Token} {t'? : Option Token} {size : UInt64}

theorem Lends.resized (hg : g.Exact) (h : a.Lends toks) (ht : t ∈ toks) (hsize : size ≠ 0)
    (he : a.resize (some t) size = (.ok t'?, a')) :
    ∃ t' s s', t'? = some t' ∧ a.space = some s ∧ a'.space = some s' ∧ s.Resized s' t t' size := by
  cases h with
  | bare store => cases ht
  | @lent store s ts _ hs hp =>
    obtain ⟨p, hmem, rfl⟩ := (mem_iff hp).mp ht
    rcases resize_uniform hg hs.proper hmem hsize with ⟨fault, hrefused⟩ | ⟨q, hresize⟩
    · rw [hrefused store s hs] at he
      cases he
    · obtain ⟨s', hok, hrelocates⟩ := hresize store s hs
      rw [hok] at he
      cases he
      exact ⟨s.token q, s, s', rfl, rfl, rfl, hrelocates.resized hs hmem (hs.copiesApart hg hmem size)⟩

end Allocator

namespace World

variable {geometry : Nat → Geometry} {hostOf : Nat → Nat} {w w' : World geometry hostOf} {k owner : Nat}
  {t : Token} {t'? : Option Token} {size : UInt64}

theorem perform_resize (w : World geometry hostOf) (k owner : Nat) (t? : Option Token) (size : UInt64) :
    (w.perform (.resize k owner t? size)).1 = .resized ((w.allocators k).resize t? size).1 := by
  rcases he : (w.allocators k).resize t? size with ⟨_ | t'?, a⟩
  · simp only [perform, he]
  · simp only [perform, he]

/-- In every reachable world, a resize that succeeds preserves data. -/
theorem Reachable.resize_preserves {stores : Nat → BackingStore} (hg : ∀ k, (geometry k).Exact)
    (h : Reachable stores w) (ht : t ∈ w.held owner) (hsize : 0 < size)
    (he : w.perform (.resize k owner (some t) size) = (.resized (.ok t'?), w')) :
    ∃ t' s s', t'? = some t' ∧ (w.allocators k).space = some s ∧ (w'.allocators k).space = some s' ∧
      s.Resized s' t t' size := by
  obtain ⟨entries, n, hw⟩ := h.sound hg
  have hne : size ≠ 0 := UInt64.pos_iff_ne_zero.mp hsize
  have hlent := Sound.mem_loans_held w entries n ht
  by_cases hown : owner = k
  · subst hown
    rcases hresize : (w.allocators owner).resize (some t) size with ⟨_ | moved?, a⟩
    · simp only [perform, hresize] at he
      cases he
    · simp only [perform, hresize] at he
      cases he
      obtain ⟨t', s, s', rfl, hs, hs', hresized⟩ := (hw.lends owner).resized (hg owner) hlent hne hresize
      refine ⟨t', s, s', rfl, hs, ?_, hresized⟩
      simp only [setTokens, setAllocator, Function.update_self]
      exact hs'
  · have hrefused := Allocator.resize_outside (hw.outside hown hlent) hne
    simp only [perform, hrefused] at he
    cases he

theorem tiny_resize_preserves : ∃ t w', t ∈ tiny.held 0 ∧
    tiny.perform (.resize 0 0 (some t) 60) = (.resized (.ok (some ⟨4272, 80⟩)), w') ∧
    ∃ t' s s', some ⟨4272, 80⟩ = some t' ∧ (tiny.allocators 0).space = some s ∧
      (w'.allocators 0).space = some s' ∧ s.Resized s' t t' 60 := by
  have hheld : (⟨4128, 32⟩ : Token) ∈ tiny.held 0 := by decide +kernel
  have hresize : ((tiny.allocators 0).resize (some ⟨4128, 32⟩) 60).1 = .ok (some ⟨4272, 80⟩) := by
    decide +kernel
  have hreply := perform_resize tiny 0 0 (some ⟨4128, 32⟩) 60
  rw [hresize] at hreply
  rcases he : tiny.perform (.resize 0 0 (some ⟨4128, 32⟩) 60) with ⟨reply, w'⟩
  rw [he] at hreply
  obtain rfl : reply = .resized (.ok (some ⟨4272, 80⟩)) := hreply
  exact ⟨_, w', hheld, he, tiny_reachable.resize_preserves (fun _ => Geometry.standard_exact) hheld
    (by decide) he⟩

end World

end ArenaHeap
