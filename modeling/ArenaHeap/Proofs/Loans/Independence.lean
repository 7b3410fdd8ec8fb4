import ArenaHeap.Proofs.Loans.Lookup

/-!
# Answers that do not depend on bytes

* `BackingStore.Alike` : stores that give arenas at the same places, whatever lies in them;
* `Allocator.Twins` : allocators that lend the same tokens from the same place, and ask such stores;
* `Twins.acquire`, `Twins.release`, `Twins.resize`, `Twins.recover`, `Twins.usage`, `Twins.init` : twins
  answer alike, for tokens that are lent and for addresses that no arena has.
-/

namespace ArenaHeap

open Tiling

/-! ## Stores -/

namespace BackingStore

variable {s s' s'' : BackingStore}

/-- The stores have the same history, and will grant the same requests at the same places. -/
structure Alike (s s' : BackingStore) : Prop where
  answer : ∀ n layout, (s'.answer n layout).map Grant.base = (s.answer n layout).map Grant.base
  requests : s'.requests = s.requests
  history : s'.history = s.history

theorem Alike.symm (h : s.Alike s') : s'.Alike s :=
  ⟨fun n layout => (h.answer n layout).symm, h.requests.symm, h.history.symm⟩

theorem Alike.claim (h : s.Alike s') (layout : Layout) :
    (s'.claim layout).1.map Grant.base = (s.claim layout).1.map Grant.base ∧
      (s.claim layout).2.Alike (s'.claim layout).2 := by
  have hanswer := h.answer s.requests layout
  unfold BackingStore.claim
  rw [h.requests]
  cases hleft : s.answer s.requests layout with
  | none =>
    rw [hleft, Option.map_none, Option.map_eq_none_iff] at hanswer
    rw [hanswer]
    exact ⟨rfl, h.answer, rfl, h.history⟩
  | some grant =>
    rw [hleft, Option.map_some, Option.map_eq_some_iff] at hanswer
    obtain ⟨grant', hright, hbase⟩ := hanswer
    rw [hright]
    refine ⟨congrArg some hbase, h.answer, rfl, ?_⟩
    simp only
    rw [hbase, h.history]

theorem Alike.release (h : s.Alike s') (base : UInt64) (layout : Layout) :
    (s.release base layout).Alike (s'.release base layout) := by
  refine ⟨h.answer, h.requests, ?_⟩
  simp only [BackingStore.release]
  rw [h.history]

end BackingStore

/-- Where an arena is. -/
def Arena.place (a : Arena) : UInt64 × Layout := (a.base, a.layout)

theorem Arena.claim_alike {s s' : BackingStore} (h : s.Alike s') (size : UInt64) (alignment : PowerOfTwo) :
    (Arena.claim s' size alignment).1.map Arena.place = (Arena.claim s size alignment).1.map Arena.place ∧
      (Arena.claim s size alignment).2.Alike (Arena.claim s' size alignment).2 := by
  unfold Arena.claim
  cases Layout.of? size alignment with
  | none => exact ⟨rfl, h⟩
  | some layout =>
    obtain ⟨hbase, hstores⟩ := h.claim layout
    rcases hleft : s.claim layout with ⟨_ | grant, store⟩
    all_goals rcases hright : s'.claim layout with ⟨_ | grant', store'⟩
    all_goals
      rw [hleft, hright] at hbase hstores
      simp only [hleft, hright]
    · exact ⟨trivial, hstores⟩
    · cases hbase
    · cases hbase
    · simp only [Option.map_some, Option.some.injEq] at hbase
      simp only [Option.map_some, Arena.place, hbase]
      exact ⟨trivial, hstores⟩

/-! ## Spaces -/

namespace BlockSpace

variable {g : Geometry} {s s' : BlockSpace g} {ts : List Tile}

theorem Twins.capacity (h : s.Twins s' ts) : s'.capacity = s.capacity := congrArg Layout.size h.layout

theorem Twins.blocks (h : s.Twins s' ts) : s'.blocks = s.blocks := congrArg Shape.blocks h.shape_eq

theorem Twins.headerOffset (h : s.Twins s' ts) (address : UInt64) :
    s'.headerOffset address = s.headerOffset address := by
  have hoffset : s'.arena.offsetOf? address = s.arena.offsetOf? address := by
    unfold Arena.offsetOf? Arena.size
    rw [h.base, h.layout]
  unfold BlockSpace.headerOffset
  rw [hoffset]

theorem Twins.lookupByWalk (h : s.Twins s' ts) (address : UInt64) :
    s'.lookupByWalk address = s.lookupByWalk address := by
  unfold BlockSpace.lookupByWalk
  rw [h.headerOffset, h.blocks]

theorem Twins.usage (h : s.Twins s' ts) : s'.usage = s.usage := by
  unfold BlockSpace.usage
  rw [h.blocks, h.capacity]

end BlockSpace

/-! ## Allocators -/

namespace Allocator

variable {g : Geometry} {a a' : Allocator g} {toks : List Token} {t : Token}

/-- The allocators lend the same tokens from the same place, and their stores are alike. -/
structure Twins (a a' : Allocator g) (toks : List Token) : Prop where
  left : a.Lends toks
  right : a'.Lends toks
  extent : a'.extent = a.extent
  stores : a.store.Alike a'.store

theorem Twins.cases (h : a.Twins a' toks) :
    (∃ store store', a = ⟨store, none⟩ ∧ a' = ⟨store', none⟩) ∨
      ∃ store store' s s' ts, a = ⟨store, some s⟩ ∧ a' = ⟨store', some s'⟩ ∧ s.Twins s' ts :=
  h.left.twins h.right h.extent (.refl toks)

theorem Twins.isInitialized (h : a.Twins a' toks) : a'.isInitialized = a.isInitialized :=
  isInitialized_of_extent h.extent

theorem Twins.strange (h : a.Twins a' toks) (address : UInt64) : a'.strange address = a.strange address := by
  unfold Allocator.strange
  rw [h.isInitialized]

theorem Twins.outside (h : a.Twins a' toks) {address : UInt64} (hout : a.Outside address) :
    a'.Outside address := by
  rcases h.cases with ⟨store, store', rfl, rfl⟩ | ⟨store, store', s, s', ts, rfl, rfl, htwins⟩
  · intro s hs
    cases hs
  · intro u hu
    cases hu
    have hnone := hout s rfl
    unfold Arena.offsetOf? Arena.size at hnone ⊢
    rw [htwins.base, htwins.layout]
    exact hnone

theorem Twins.acquire (hg : g.Exact) (h : a.Twins a' toks) (size : UInt64) :
    (a'.acquire size).1 = (a.acquire size).1 :=
  h.left.acquire_congr hg h.right h.extent (.refl toks) size

theorem resize_none (a : Allocator g) (size : UInt64) : (a.resize none size).1 =
    match (a.acquire size).1 with
    | .ok t => .ok (some t)
    | .error fault => .error ⟨fault, none⟩ := by
  unfold Allocator.resize
  rcases a.acquire size with ⟨_ | t, b⟩ <;> rfl

theorem resize_zero (a : Allocator g) (t : Token) : (a.resize (some t) 0).1 =
    match (a.release t).1 with
    | .ok () => .ok none
    | .error fault => .error ⟨fault, none⟩ := by
  simp only [Allocator.resize, ↓reduceIte]
  rcases a.release t with ⟨_ | _, b⟩ <;> rfl

theorem Twins.release (h : a.Twins a' toks) (ht : t ∈ toks ∨ a.Outside t.address) :
    (a'.release t).1 = (a.release t).1 := by
  rcases ht with ht | hout
  · have hperm := List.perm_cons_erase ht
    obtain ⟨b, he, -⟩ := (h.left.perm hperm).release
    obtain ⟨b', he', -⟩ := (h.right.perm hperm).release
    rw [he, he']
  · rw [release_outside hout, release_outside (h.outside hout), h.strange]

theorem Twins.resize (hg : g.Exact) (h : a.Twins a' toks) {t? : Option Token}
    (ht : ∀ t ∈ t?, t ∈ toks ∨ a.Outside t.address) (size : UInt64) :
    (a'.resize t? size).1 = (a.resize t? size).1 := by
  cases t? with
  | none => rw [resize_none, resize_none, h.acquire hg]
  | some t =>
    by_cases hsize : size = 0
    · rw [hsize, resize_zero, resize_zero, h.release (ht t rfl)]
    · rcases ht t rfl with hlent | hout
      · exact h.left.resize_congr hg h.right h.extent (.refl toks) hlent hsize
      · rw [resize_outside hout hsize, resize_outside (h.outside hout) hsize, h.strange]

theorem Twins.recover (h : a.Twins a' toks) (address : UInt64) : a'.recover address = a.recover address := by
  rcases h.cases with ⟨store, store', rfl, rfl⟩ | ⟨store, store', s, s', ts, rfl, rfl, htwins⟩
  · rfl
  · unfold Allocator.recover
    simp only [htwins.lookupByWalk]
    cases hwalk : s.lookupByWalk address with
    | error fault => rfl
    | ok offset =>
      obtain ⟨-, b, hb, rfl⟩ := BlockSpace.lookupByWalk_ok hwalk
      have hmem := List.mem_of_mem_filter hb
      have hmem' : b ∈ s'.blocks := htwins.blocks ▸ hmem
      simp only [htwins.left.shows.block_of_mem htwins.left.proper hmem,
        htwins.right.shows.block_of_mem htwins.right.proper hmem']

theorem Twins.usage (h : a.Twins a' toks) : a'.usage = a.usage := by
  rcases h.cases with ⟨store, store', rfl, rfl⟩ | ⟨store, store', s, s', ts, rfl, rfl, htwins⟩
  · rfl
  · unfold Allocator.usage
    simp only [htwins.usage]

theorem Twins.init (h : a.Twins a' toks) (capacity : UInt64) :
    (a'.init capacity).1 = (a.init capacity).1 ∧
      (a'.init capacity).2.extent = (a.init capacity).2.extent ∧
      (a.init capacity).2.store.Alike (a'.init capacity).2.store := by
  unfold Allocator.init
  by_cases hready : a.isInitialized = true
  · rw [if_pos hready, if_pos (h.isInitialized.trans hready)]
    exact ⟨rfl, h.extent, h.stores⟩
  rw [if_neg hready, if_neg (h.isInitialized ▸ hready)]
  by_cases hsmall : g.arenaSize capacity < g.minimumCapacity
  · rw [if_pos hsmall, if_pos hsmall]
    exact ⟨rfl, h.extent, h.stores⟩
  rw [if_neg hsmall, if_neg hsmall]
  obtain ⟨hplace, hstores⟩ := Arena.claim_alike h.stores (g.arenaSize capacity) g.granularity
  rcases hleft : Arena.claim a.store (g.arenaSize capacity) g.granularity with ⟨_ | arena, store⟩
  all_goals rcases hright : Arena.claim a'.store (g.arenaSize capacity) g.granularity with ⟨_ | arena', store'⟩
  all_goals rw [hleft, hright] at hplace hstores
  · exact ⟨rfl, h.extent, hstores⟩
  · cases hplace
  · cases hplace
  · refine ⟨rfl, ?_, hstores⟩
    simp only [extent_fresh]
    exact hplace

theorem Twins.deinit (h : a.Twins a' toks) :
    a'.deinit.extent = a.deinit.extent ∧ a.deinit.store.Alike a'.deinit.store := by
  rcases h.cases with ⟨store, store', rfl, rfl⟩ | ⟨store, store', s, s', ts, rfl, rfl, htwins⟩
  · exact ⟨rfl, h.stores⟩
  · refine ⟨rfl, ?_⟩
    have hstores := h.stores.release s.arena.base s.arena.layout
    simp only [Allocator.deinit, Arena.release, htwins.base, htwins.layout]
    exact hstores

end Allocator

end ArenaHeap
