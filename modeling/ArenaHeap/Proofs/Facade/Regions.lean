import ArenaHeap.Facade
import ArenaHeap.Proofs.Loans.Lookup
import ArenaHeap.Proofs.Loans.Usage
import ArenaHeap.Proofs.Memory
import Mathlib.Data.Finmap

/-!
# Maps of live regions

A facade is seen as a finite map: from the address of each block that is handed out to its usable bytes.
How many bytes may be used is the length of the list.

* `LiveMap`, `LiveMap.WellFormed` : such maps, and what can be relied on;
* `Allocator.regions` : the regions of some tokens;
* `Facade.live` : the regions of the blocks that are handed out;
* `regions_cons`, `regions_spares`, `erase_regions` : tokens that come, stay and go;
* `overwrite`, `Lends.read_write` : bytes of which some were written;
* `Lends.wellFormed`, `Facade.live_eq` : the live regions are those of the tokens that are lent;
* `Facade.allocatedBlocks_eq` : how many there are.
-/

namespace ArenaHeap

/-- The usable bytes at each address that is live. -/
abbrev LiveMap := Finmap fun _ : UInt64 => List UInt8

/-- Regions start at multiples of 16 and not at address 0, lie in the address space, and have bytes of their
own. -/
structure LiveMap.WellFormed (m : LiveMap) : Prop where
  aligned : ∀ p ∈ m, p ≠ 0 ∧ 16 ∣ p.toNat
  fits : ∀ p bs, m.lookup p = some bs → 0 < bs.length ∧ p.toNat + bs.length ≤ 2 ^ 64
  apart : ∀ p q bs cs, m.lookup p = some bs → m.lookup q = some cs → p ≠ q →
    p.toNat + bs.length ≤ q.toNat ∨ q.toNat + cs.length ≤ p.toNat

/-- Bytes of which some were written. -/
def overwrite (old : List UInt8) (place : Nat) (bytes : List UInt8) : List UInt8 :=
  old.take place ++ (bytes ++ old.drop (place + bytes.length))

namespace Allocator

variable {g : Geometry} {a a' : Allocator g} {toks toks' : List Token} {t : Token} {p : UInt64}
  {bs : List UInt8}

/-- The bytes that the holder of a token finds, by their address. -/
def region (a : Allocator g) (t : Token) : Σ _ : UInt64, List UInt8 := ⟨t.address, a.read t.address t.size.toNat⟩

/-- The regions of some tokens. -/
def regions (a : Allocator g) (toks : List Token) : LiveMap := (toks.map a.region).toFinmap

theorem regions_cons (a : Allocator g) (t : Token) (toks : List Token) :
    a.regions (t :: toks) = (a.regions toks).insert t.address (a.read t.address t.size.toNat) := by
  unfold regions region
  rw [List.map_cons, Finmap.toFinmap_cons]

theorem mem_regions : p ∈ a.regions toks ↔ p ∈ toks.map Token.address := by
  induction toks with
  | nil => exact ⟨fun h => absurd h Finmap.notMem_empty, nofun⟩
  | cons t toks ih => rw [regions_cons, Finmap.mem_insert, ih, List.map_cons, List.mem_cons]

theorem nodupKeys_region (hnodup : (toks.map Token.address).Nodup) : (toks.map a.region).NodupKeys := by
  unfold List.NodupKeys List.keys
  rw [List.map_map]
  exact hnodup

theorem lookup_regions (hnodup : (toks.map Token.address).Nodup) :
    (a.regions toks).lookup p = some bs ↔ ∃ t ∈ toks, t.address = p ∧ a.read p t.size.toNat = bs := by
  unfold regions
  rw [Finmap.dlookup_list_toFinmap, ← Option.mem_def, List.mem_dlookup_iff (nodupKeys_region hnodup),
    List.mem_map]
  constructor
  · rintro ⟨t, ht, he⟩
    cases he
    exact ⟨t, ht, rfl, rfl⟩
  · rintro ⟨t, ht, rfl, rfl⟩
    exact ⟨t, ht, rfl⟩

theorem regions_perm (hnodup : (toks.map Token.address).Nodup) (hperm : toks.Perm toks') :
    a.regions toks = a.regions toks' := by
  refine Finmap.ext_lookup fun p => ?_
  unfold regions
  rw [Finmap.dlookup_list_toFinmap, Finmap.dlookup_list_toFinmap]
  exact List.perm_dlookup p (nodupKeys_region hnodup) (hperm.map a.region)

theorem regions_spares (h : a.Spares a' toks) : a'.regions toks = a.regions toks := by
  unfold regions region
  congr 1
  refine List.map_congr_left fun t ht => ?_
  rw [h.bytes t ht _ (Nat.le_refl _)]

theorem erase_regions (hnot : t.address ∉ toks.map Token.address) :
    (a.regions (t :: toks)).erase t.address = a.regions toks := by
  refine Finmap.ext_lookup fun p => ?_
  rw [regions_cons]
  by_cases hp : p = t.address
  · rw [hp, Finmap.lookup_erase, Eq.comm, Finmap.lookup_eq_none, mem_regions]
    exact hnot
  · rw [Finmap.lookup_erase_ne hp, Finmap.lookup_insert_of_ne _ hp]

theorem card_regions (hnodup : (toks.map Token.address).Nodup) :
    (a.regions toks).keys.card = toks.length := by
  induction toks with
  | nil => rfl
  | cons t toks ih =>
    rw [List.map_cons, List.nodup_cons] at hnodup
    have hkeys : (a.regions (t :: toks)).keys = insert t.address (a.regions toks).keys := by
      ext p
      rw [regions_cons, Finmap.mem_keys, Finmap.mem_insert, Finset.mem_insert, Finmap.mem_keys]
    rw [hkeys, Finset.card_insert_of_notMem, ih hnodup.2, List.length_cons]
    rw [Finmap.mem_keys, mem_regions]
    exact hnodup.1

theorem length_read (h : a.isInitialized = true) (address : UInt64) (n : Nat) :
    (a.read address n).length = n := by
  obtain ⟨s, hs⟩ := Option.isSome_iff_exists.mp h
  simp only [read, hs]
  exact Memory.length_bytes _ _ _

theorem take_read (a : Allocator g) (address : UInt64) {k n : Nat} (hk : k ≤ n) :
    (a.read address n).take k = a.read address k := by
  unfold read
  cases a.space with
  | none => exact List.take_nil
  | some s => exact s.arena.memory.take_bytes _ hk

/-- Who writes bytes of a block finds them among those that it had. -/
theorem Lends.read_write (h : a.Lends toks) (ht : t ∈ toks) {place : Nat} {bytes : List UInt8}
    (hfit : place + bytes.length ≤ t.size.toNat) :
    (a.write (t.address + .ofNat place) bytes).read t.address t.size.toNat =
      overwrite (a.read t.address t.size.toNat) place bytes := by
  cases h with
  | bare store => cases ht
  | @lent store s ts _ hs hp =>
    obtain ⟨p, hmem, rfl⟩ := (mem_iff hp).mp ht
    have hle := (hs.bounds hmem).1
    have hcap := s.capacity_lt
    have hsize := (hs.toNat_token hmem).2
    have hposition : s.arena.position ((s.token p).address + .ofNat place) = p.1 + g.front + place :=
      BlockSpace.position_address_add (by omega)
    simp only [Allocator.write, read, Arena.write, Arena.read, hposition]
    change (s.arena.memory.setBytes (p.1 + g.front + place) bytes).bytes
      (s.arena.position (s.token p).address) _ = _
    rw [hs.position hmem]
    exact s.arena.memory.bytes_setBytes_inside _ _ hfit

theorem Lends.wellFormed (hgrid : 16 ∣ g.grid) (h : a.Lends toks) : (a.regions toks).WellFormed := by
  refine ⟨?_, ?_, ?_⟩
  · intro p hp
    obtain ⟨t, ht, rfl⟩ := List.mem_map.mp (mem_regions.mp hp)
    exact ⟨h.address_ne_zero ht, hgrid.trans (h.placed ht).1⟩
  · intro p bs hp
    obtain ⟨t, ht, rfl, rfl⟩ := (lookup_regions h.nodup).mp hp
    obtain ⟨s, hs, -, -, hpos⟩ := h.inside ht
    rw [length_read (h.isInitialized ht)]
    exact ⟨hpos, (h.placed ht).2⟩
  · intro p q bs cs hp hq hne
    obtain ⟨t, ht, rfl, rfl⟩ := (lookup_regions h.nodup).mp hp
    obtain ⟨u, hu, rfl, rfl⟩ := (lookup_regions h.nodup).mp hq
    rw [length_read (h.isInitialized ht), length_read (h.isInitialized ht)]
    exact h.apart ht hu hne

end Allocator

/-- The regions of the blocks that are handed out. -/
def Facade.live (f : Facade) : LiveMap :=
  match f.space with
  | none => ∅
  | some s => Allocator.regions f (s.allocated.map s.loan)

theorem Facade.live_eq {f : Facade} {toks : List Token} (h : Allocator.Lends f toks) :
    f.live = Allocator.regions f toks := by
  unfold live
  cases hs : f.space with
  | none =>
    rw [h.eq_nil hs]
    rfl
  | some s => exact (Allocator.regions_perm h.nodup (h.allocated hs)).symm

/-! ## Counting -/

/-- A facade counts its live regions. -/
theorem Facade.allocatedBlocks_eq {f : Facade} {toks : List Token} (h : Allocator.Lends f toks) :
    f.allocatedBlocks = f.space.map fun _ => .ofNat f.live.keys.card := by
  rw [live_eq h, Allocator.card_regions h.nodup]
  cases h with
  | bare store => rfl
  | @lent store s ts _ hs hp =>
    simp only [allocatedBlocks, Allocator.usage, Option.map_some]
    rw [hp.length_eq, ← hs.map_loan, List.length_map, ← hs.usage_tells.allocatedBlocks, UInt64.ofNat_toNat]

end ArenaHeap
