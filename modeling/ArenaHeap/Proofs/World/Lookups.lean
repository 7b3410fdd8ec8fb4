import ArenaHeap.Proofs.Loans.Lookup
import ArenaHeap.Proofs.World.Canonical

/-!
# Tags agree with the walk

The tag in front of an address can be forged by user data, but not where a block starts: there the tag and
the walk over the blocks say the same.

* `Sound.tag_eq_walk` : they agree on all addresses but those inside of blocks;
* `Allocator.resize_fault` : no resize of a token that is found fails for the sake of its address;
* `World.Rejects` : an allocator refuses a token, and all allocators stay as they are;
* `World.LookupsAgree` : the look-ups agree, tokens that are lent are accepted, and tokens of other arenas or
  of free blocks are rejected;
* `Reachable.lookups_agree` : so it is in every reachable world.
-/

namespace ArenaHeap

open Tiling

namespace BlockSpace

variable {g : Geometry} {s : BlockSpace g} {ts : List Tile} {address : UInt64}

/-- The look-ups agree where the header would be that of a block, and where there can be none. -/
theorem Sound.tag_eq_walk (hs : s.Sound ts)
    (h : ∀ offset, s.headerOffset address = .ok offset → ∃ b ∈ s.blocks, b.offset = offset) :
    s.lookupByTag address = s.lookupByWalk address := by
  cases hheader : s.headerOffset address with
  | error fault =>
    obtain ⟨htag, hwalk⟩ := lookups_refused hheader
    rw [htag, hwalk]
  | ok offset =>
    obtain ⟨b, hb, rfl⟩ := h offset hheader
    rw [hs.lookupByTag_block hb hheader, hs.lookupByWalk_block hb hheader]

end BlockSpace

namespace Allocator

variable {g : Geometry} {a a' : Allocator g} {s : BlockSpace g} {t : Token} {size offset : UInt64}

theorem Lends.found {toks : List Token} (h : a.Lends toks) (ht : t ∈ toks) :
    ∃ s offset, a.space = some s ∧ s.lookupByTag t.address = .ok offset := by
  cases h with
  | bare store => cases ht
  | @lent store s ts _ hs hp =>
    obtain ⟨p, hmem, rfl⟩ := (mem_iff hp).mp ht
    exact ⟨s, _, rfl, hs.lookupByTag hmem⟩

/-- A token that is found is not blamed: its resize fails for want of room alone. -/
theorem resize_fault (hs : a.space = some s) (hfound : s.lookupByTag t.address = .ok offset) (hsize : size ≠ 0)
    {refused : ResizeFault} (h : a.resize (some t) size = (.error refused, a')) :
    refused.fault.kind = .allocationExhausted := by
  simp only [resize, if_neg hsize, hs, hfound] at h
  split at h
  · rename_i fault haligned
    cases h
    unfold Geometry.alignedSize at haligned
    rw [if_neg hsize] at haligned
    split at haligned
    · cases haligned
      rfl
    · split at haligned
      · cases haligned
      · cases haligned
        rfl
  · split at h
    · cases h
    · split at h
      · cases h
        rfl
      · cases h

end Allocator

namespace World

variable {geometry : Nat → Geometry} {hostOf : Nat → Nat} {w w' : World geometry hostOf}
  {entries : Nat → List Entry} {k n owner : Nat} {t : Token} {s : BlockSpace (geometry k)}

/-- Allocator `k` refuses a token, whatever is to be done with it, and no allocator changes. -/
structure Rejects (w : World geometry hostOf) (k owner : Nat) (t : Token) (fault : Fault) : Prop where
  release : ∃ w', w.perform (.release k owner t) = (.done (.error fault), w') ∧ w'.allocators = w.allocators
  resize : ∀ size, ∃ w', w.perform (.resize k owner (some t) size) =
    (.resized (.error ⟨fault, if size = 0 then none else some t⟩), w') ∧ w'.allocators = w.allocators

/-- The look-ups agree wherever a block may be. Tokens that are lent are accepted, and what happens to
their blocks happens to no other. Tokens of other arenas are rejected, and so are those of free blocks: also one
whose block was released, as long as a free block starts there. -/
structure LookupsAgree (w : World geometry hostOf) (k : Nat) (s : BlockSpace (geometry k)) : Prop where
  agree : ∀ address, (∀ offset, s.headerOffset address = .ok offset → ∃ b ∈ s.blocks, b.offset = offset) →
    s.lookupByTag address = s.lookupByWalk address
  live : ∀ t ∈ w.held k, t ∈ (w.allocators k).lent
  released : ∀ t ∈ (w.allocators k).lent, ∃ a', (w.allocators k).release t = (.ok (), a') ∧
    (w.allocators k).resize (some t) 0 = (.ok none, a') ∧
    (w.allocators k).lent.Perm (t :: a'.lent) ∧ (w.allocators k).Spares a' a'.lent
  resized : ∀ t ∈ (w.allocators k).lent, ∀ size ≠ 0,
    (∃ fault, (w.allocators k).resize (some t) size = (.error ⟨fault, some t⟩, w.allocators k) ∧
      fault.kind = .allocationExhausted) ∨
    ∃ t' a' rest, (w.allocators k).resize (some t) size = (.ok (some t'), a') ∧
      (w.allocators k).lent.Perm (t :: rest) ∧ a'.lent.Perm (t' :: rest) ∧ (w.allocators k).Spares a' rest
  foreign : ∀ owner ≠ k, ∀ t ∈ (w.allocators owner).lent, w.Rejects k owner t (.foreignPointer t.address)
  free : ∀ owner t, ∀ b ∈ s.blocks, b.header.isFree = true → s.address b.offset = t.address →
    w.Rejects k owner t (.doubleFree t.address)
  duplicate : ∀ b ∈ s.allocated, s.loan b ∈ w.held k → ∀ w',
    Leads (fun call => call ≠ .deinit k) (w.perform (.release k k (s.loan b))).2 w' →
    ∀ s', (w'.allocators k).space = some s' → ∀ b' ∈ s'.blocks, b'.header.isFree = true → b'.offset = b.offset →
      w'.Rejects k k (s.loan b) (.doubleFree (s.loan b).address)

theorem rejects_of_refuses {fault : Fault} (h : (w.allocators k).Refuses t fault) (owner : Nat) :
    w.Rejects k owner t fault := by
  refine ⟨?_, fun size => ?_⟩
  · simp only [perform, h.release]
    rw [setAllocator_self]
    exact ⟨_, rfl, rfl⟩
  · simp only [perform, h.resize]
    rw [setAllocator_self]
    exact ⟨_, rfl, rfl⟩

theorem Sound.released (hw : w.Sound entries n) (ht : t ∈ (w.allocators k).lent) :
    ∃ a', (w.allocators k).release t = (.ok (), a') ∧ (w.allocators k).resize (some t) 0 = (.ok none, a') ∧
      (w.allocators k).lent.Perm (t :: a'.lent) ∧ (w.allocators k).Spares a' a'.lent := by
  have hlent := (hw.lends k).perm_lent
  have hperm := List.perm_cons_erase ht
  obtain ⟨a', he, hlends, hspares⟩ := ((hw.lends k).perm (hlent.trans hperm)).release
  have hrest := hlends.perm_lent
  refine ⟨a', he, ?_, hperm.trans (hrest.cons t), hspares.mono fun t' ht' => hrest.mem_iff.mpr ht'⟩
  simp only [Allocator.resize, if_pos, he]

theorem Sound.resized (hg : (geometry k).Exact) (hw : w.Sound entries n) (ht : t ∈ (w.allocators k).lent)
    {size : UInt64} (hsize : size ≠ 0) :
    (∃ fault, (w.allocators k).resize (some t) size = (.error ⟨fault, some t⟩, w.allocators k) ∧
      fault.kind = .allocationExhausted) ∨
    ∃ t' a' rest, (w.allocators k).resize (some t) size = (.ok (some t'), a') ∧
      (w.allocators k).lent.Perm (t :: rest) ∧ a'.lent.Perm (t' :: rest) ∧ (w.allocators k).Spares a' rest := by
  have hlends := hw.lends k
  have hmem := hlends.perm_lent.mem_iff.mpr ht
  have hperm := List.perm_cons_erase ht
  rcases (hlends.perm (hlends.perm_lent.trans hperm)).resize_cases hg hsize with
    ⟨fault, he⟩ | ⟨t', a', he, -, hlends', hspares⟩
  · obtain ⟨s, offset, hs, hfound⟩ := hlends.found hmem
    exact Or.inl ⟨fault, he, Allocator.resize_fault hs hfound hsize he⟩
  · exact Or.inr ⟨t', a', _, he, hperm, hlends'.perm_lent.symm, hspares⟩

theorem Sound.foreign (hw : w.Sound entries n) (hs : (w.allocators k).space = some s) (hne : owner ≠ k)
    (ht : t ∈ (w.allocators owner).lent) : w.Rejects k owner t (.foreignPointer t.address) := by
  have hready : (w.allocators k).isInitialized = true := by
    unfold Allocator.isInitialized
    rw [hs]
    rfl
  have hrefuses := Allocator.refuses_outside (hw.outside hne ((hw.lends owner).perm_lent.mem_iff.mpr ht))
  unfold Allocator.strange at hrefuses
  rw [if_pos hready] at hrefuses
  exact rejects_of_refuses hrefuses owner

section Exact

variable (hg : ∀ k, (geometry k).Exact)
include hg

/-- Only a call that gives it back moves an arena. -/
theorem Leads.extent {stores : Nat → BackingStore} (hw : Reachable stores w)
    (h : Leads (fun call => call ≠ .deinit k) w w') {x : UInt64 × Layout} (hx : x ∈ (w.allocators k).extent) :
    x ∈ (w'.allocators k).extent := by
  refine @Leads.holds _ _ _ _ _ _ (fun w => x ∈ (w.allocators k).extent) hw h hx ?_
  intro w call hreach hx hok hcall
  obtain ⟨entries, n, hw⟩ := hreach.sound hg
  obtain ⟨entries', n', -, hadvances⟩ := hw.perform hg call hok
  exact hadvances.arenas k hcall x hx

theorem Reachable.duplicate {stores : Nat → BackingStore} (h : Reachable stores w)
    (hs : (w.allocators k).space = some s) (ht : t ∈ w.held k)
    (hleads : Leads (fun call => call ≠ .deinit k) (w.perform (.release k k t)).2 w')
    {s' : BlockSpace (geometry k)} (hs' : (w'.allocators k).space = some s') {b b' : Block} (hb : s.loan b = t)
    (hb' : b' ∈ s'.blocks) (hfree : b'.header.isFree = true) (hsame : b'.offset = b.offset) :
    w'.Rejects k k t (.doubleFree t.address) := by
  have hok : w.Allowed (.release k k t) := ht
  obtain ⟨entries, n, hw⟩ := h.sound hg
  have hx : (s.arena.base, s.arena.layout) ∈ (w.allocators k).extent := by
    unfold Allocator.extent
    rw [hs]
    rfl
  have hextent := hleads.extent hg (.step h hok) ((hw.release ht).arenas k nofun _ hx)
  unfold Allocator.extent at hextent
  rw [hs'] at hextent
  -- The arena has not moved since, so the offset has the same address.
  obtain ⟨hbase, -⟩ := Prod.mk.inj (Option.some.inj hextent)
  have haddress : s'.address b'.offset = t.address := by
    rw [← hb, hsame, BlockSpace.loan, BlockSpace.address, BlockSpace.address, Arena.addressOf, Arena.addressOf, hbase]
  obtain ⟨entries', n', hw'⟩ := (Reachable.leads (.step h hok) hleads).sound hg
  obtain ⟨ts', hsound'⟩ := (hw'.lends k).sound hs'
  exact rejects_of_refuses (Allocator.refuses_free hs' hsound' hb' hfree haddress) k

/-- In every reachable world, the look-ups agree. -/
theorem Reachable.lookups_agree {stores : Nat → BackingStore} (h : Reachable stores w)
    (hs : (w.allocators k).space = some s) : w.LookupsAgree k s := by
  obtain ⟨entries, n, hw⟩ := h.sound hg
  obtain ⟨ts, hsound⟩ := (hw.lends k).sound hs
  refine ⟨fun _ hblock => hsound.tag_eq_walk hblock, fun t ht => ?_, fun _ ht => hw.released ht,
    fun _ ht _ hsize => hw.resized (hg k) ht hsize, fun _ hne _ ht => hw.foreign hs hne ht,
    fun owner t b hb hfree haddress => ?_, fun b _ ht w' hleads s' hs' b' hb' hfree hsame => ?_⟩
  · exact (hw.lends k).perm_lent.mem_iff.mp (Sound.mem_loans_held w entries n ht)
  · exact rejects_of_refuses (Allocator.refuses_free hs hsound hb hfree haddress) owner
  · exact h.duplicate hg hs ht hleads hs' rfl hb' hfree hsame

end Exact

theorem tiny_lookups_agree : ∃ s, (tiny.allocators 0).space = some s ∧ tiny.LookupsAgree 0 s := by
  obtain ⟨s, hs⟩ := tiny_space
  exact ⟨s, hs, tiny_reachable.lookups_agree (fun _ => Geometry.standard_exact) hs⟩

end World

end ArenaHeap
