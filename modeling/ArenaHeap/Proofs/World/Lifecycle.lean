import ArenaHeap.Proofs.Chains.Staying
import ArenaHeap.Proofs.Loans.Canonical
import ArenaHeap.Proofs.World.Loans

/-!
# The life of arenas

An allocator and its store exchange one arena at a time. All of this holds of any calls whatever, also of
those that break the rules.

* `Alternates` : transfers in which an arena is claimed and the same one is given back, in turn;
* `Allocator.Ledger` : the transfers of an allocator alternate, and all that it claimed was granted;
* `Allocator.init_outcome`, `Allocator.Starts` : when an arena is claimed, and what it is at first;
* `Mapping.granted_length` : what was mapped is what is unmapped;
* `Event`, `World.live` : calls of a world, and the other two ways to give an arena back;
* `World.Accounted` : the transfers of an allocator, and what `init` and `drop` will do to them;
* `World.lives_accounted` : so it is after all events.
-/

namespace ArenaHeap

open Tiling

/-! ## Transfers in turn -/

/-- Transfers, the latest first, in which an arena is claimed when none is held, and the arena that is
given back is the one that is held. -/
inductive Alternates : List Transfer → Option (UInt64 × Layout) → Prop
  | start : Alternates [] none
  | claim {history : List Transfer} (h : Alternates history none) (base : UInt64) (layout : Layout) :
    Alternates (.claimed base layout :: history) (some (base, layout))
  | release {history : List Transfer} {base : UInt64} {layout : Layout}
    (h : Alternates history (some (base, layout))) : Alternates (.released base layout :: history) none

variable {history : List Transfer} {held : Option (UInt64 × Layout)} {base : UInt64} {layout : Layout}

/-- There is a claim more than there are releases as long as an arena is held. -/
theorem Alternates.countP (h : Alternates history held) : history.countP Transfer.isClaim =
    (history.countP fun t => !t.isClaim) + if held.isSome then 1 else 0 := by
  induction h with
  | start => rfl
  | claim h base layout ih =>
    rw [List.countP_cons_of_pos rfl, List.countP_cons_of_neg (by simp [Transfer.isClaim]), ih]
    rfl
  | release h ih =>
    rw [List.countP_cons_of_neg (by simp [Transfer.isClaim]), List.countP_cons_of_pos rfl, ih]
    rfl

/-- What is held or was given back was claimed. -/
theorem Alternates.claimed (h : Alternates history held)
    (hmem : held = some (base, layout) ∨ .released base layout ∈ history) :
    .claimed base layout ∈ history := by
  induction h with
  | start => simp at hmem
  | claim h base' layout' ih =>
    rcases hmem with hheld | hmem
    · cases hheld
      exact List.mem_cons_self
    · rcases List.mem_cons.mp hmem with hhead | hmem
      · cases hhead
      · exact List.mem_cons_of_mem _ (ih (Or.inr hmem))
  | release h ih =>
    rcases hmem with hheld | hmem
    · cases hheld
    · rcases List.mem_cons.mp hmem with hhead | hmem
      · cases hhead
        exact List.mem_cons_of_mem _ (ih (Or.inl rfl))
      · exact List.mem_cons_of_mem _ (ih (Or.inr hmem))

/-! ## Layouts of arenas -/

/-- A size on the grid has a layout as soon as it is a signed word. -/
theorem Layout.of?_eq_none_iff {size : UInt64} {alignment : PowerOfTwo}
    (hdvd : alignment.value.toNat ∣ size.toNat) :
    Layout.of? size alignment = none ↔ 2 ^ 63 - 1 < size.toNat := by
  obtain ⟨k, hk⟩ := alignment.isPower
  have hlt : 2 ^ k < 2 ^ 64 := hk ▸ alignment.value.toNat_lt
  have hk64 : k < 64 := (Nat.pow_lt_pow_iff_right (by decide)).mp hlt
  have hhalf : UInt64.size / 2 = 2 ^ 63 := rfl
  have hpos := Nat.pos_of_isPowerOfTwo alignment.isPower
  -- The next multiple of the alignment is not beyond `2 ^ 63`, which is one.
  have hnext (hsmall : size.toNat < 2 ^ 63) : size.toNat + alignment.value.toNat ≤ 2 ^ 63 := by
    have hdvd63 : alignment.value.toNat ∣ 2 ^ 63 - size.toNat :=
      Nat.dvd_sub (hk ▸ Nat.pow_dvd_pow 2 (by omega)) hdvd
    have hle := Nat.le_of_dvd (by omega) hdvd63
    omega
  unfold Layout.of?
  split
  · simp only [reduceCtorEq, false_iff]
    omega
  · simp only [true_iff]
    omega

namespace Allocator

variable {g : Geometry} {a a' : Allocator g} {store : BackingStore}

/-! ## Claiming -/

/-- The four ways in which `init` ends: there is an arena already, the capacity is too small, the store is
not asked or refuses, or there is a fresh arena. -/
theorem init_outcome (a : Allocator g) (capacity : UInt64) :
    (a.isInitialized = true ∧ a.init capacity = (.error .alreadyInitialized, a)) ∨
      (a.isInitialized = false ∧ g.arenaSize capacity < g.minimumCapacity ∧
        a.init capacity = (.error (.invalidCapacity capacity g.minimumCapacity), a)) ∨
      (a.isInitialized = false ∧ g.minimumCapacity ≤ g.arenaSize capacity ∧
        (∀ layout, layout.size = g.arenaSize capacity → layout.alignment = g.granularity →
          a.store.answer a.store.requests layout = none) ∧
        ∃ requests, a.init capacity =
          (.error (.backingStoreExhausted capacity), { a with store.requests := requests })) ∨
      (a.isInitialized = false ∧ g.minimumCapacity ≤ g.arenaSize capacity ∧
        ∃ layout grant, layout.size = g.arenaSize capacity ∧ layout.alignment = g.granularity ∧
          a.store.answer a.store.requests layout = some grant ∧
          a.init capacity = (.ok (),
            ⟨{ a.store with
              requests := a.store.requests + 1
              history := .claimed grant.base layout :: a.store.history },
              some (.fresh g ⟨grant.base, layout, .blank grant.contents⟩)⟩)) := by
  unfold init
  by_cases hready : a.isInitialized = true
  · exact Or.inl ⟨hready, if_pos hready⟩
  have hbare := Bool.eq_false_iff.mpr hready
  rw [if_neg hready]
  by_cases hsmall : g.arenaSize capacity < g.minimumCapacity
  · exact Or.inr (Or.inl ⟨hbare, hsmall, if_pos hsmall⟩)
  have hroom := UInt64.not_lt.mp hsmall
  rw [if_neg hsmall]
  rcases Arena.claim_cases a.store (g.arenaSize capacity) g.granularity with
    ⟨hlarge, he⟩ | ⟨layout, hlayout, ⟨hrefused, he⟩ | ⟨grant, hgrant, he⟩⟩
  · refine Or.inr (Or.inr (Or.inl ⟨hbare, hroom, fun layout hsize halign => ?_, a.store.requests, by rw [he]⟩))
    have hsome := Layout.of?_eq_some_iff.mpr ⟨hsize, halign⟩
    rw [hlarge] at hsome
    cases hsome
  · refine Or.inr (Or.inr (Or.inl ⟨hbare, hroom, fun other hsize halign => ?_, a.store.requests + 1, by rw [he]⟩))
    have hsome := Layout.of?_eq_some_iff.mpr ⟨hsize, halign⟩
    rw [hlayout] at hsome
    cases hsome
    exact hrefused
  · obtain ⟨hsize, halign⟩ := Layout.of?_eq_some_iff.mp hlayout
    exact Or.inr (Or.inr (Or.inr ⟨hbare, hroom, layout, grant, hsize, halign, hgrant, by rw [he]⟩))

/-- What `init` does. It succeeds if there is no arena yet, if the capacity holds a block and is a signed
word, and if the store grants the layout; the store is not asked before the first two are checked. -/
structure Starts (a : Allocator g) (capacity : UInt64) : Prop where
  ok_iff : (a.init capacity).1 = .ok () ↔ a.isInitialized = false ∧
    g.minimumCapacity ≤ g.arenaSize capacity ∧ (g.arenaSize capacity).toNat ≤ 2 ^ 63 - 1 ∧
    ∀ layout, layout.size = g.arenaSize capacity → layout.alignment = g.granularity →
      (a.store.answer a.store.requests layout).isSome = true
  already : a.isInitialized = true → a.init capacity = (.error .alreadyInitialized, a)
  invalid : a.isInitialized = false → g.arenaSize capacity < g.minimumCapacity →
    a.init capacity = (.error (.invalidCapacity capacity g.minimumCapacity), a)
  exhausted : a.isInitialized = false → g.minimumCapacity ≤ g.arenaSize capacity →
    (a.init capacity).1 ≠ .ok () → ∃ requests, a.init capacity =
      (.error (.backingStoreExhausted capacity), { a with store.requests := requests })
  single : (a.init capacity).1 = .ok () → ∃ s, (a.init capacity).2.space = some s ∧
    s.shape = Shape.single g (g.arenaSize capacity) ∧ g.headerSize ≤ g.arenaSize capacity

section Exact

variable (hg : g.Exact)
include hg

/-- A fresh arena is one free block. -/
theorem shape_fresh {capacity : UInt64} {arena : Arena} (hsize : arena.size = g.arenaSize capacity)
    (hroom : g.minimumCapacity ≤ g.arenaSize capacity) :
    (BlockSpace.fresh g arena).shape = Shape.single g (g.arenaSize capacity) := by
  have hgrid := g.dvd_arenaSize capacity
  have hleast := Geometry.le_arenaSize hg hroom
  have hcapacity := capacity_fresh (g := g) arena
  have hshows := BlockSpace.fresh_shows (g := g) arena (by rw [hsize]; omega)
  rw [← hsize] at hgrid hleast ⊢
  rw [← hcapacity] at hgrid hleast hshows ⊢
  exact hshows.shape_single (proper_fresh hg hgrid hleast) (by omega)

theorem init_starts (a : Allocator g) (capacity : UInt64) : a.Starts capacity := by
  rcases a.init_outcome capacity with ⟨hready, he⟩ | ⟨hbare, hsmall, he⟩ |
    ⟨hbare, hroom, hnone, requests, he⟩ | ⟨hbare, hroom, layout, grant, hsize, halign, hgrant, he⟩
  · refine ⟨?_, ?_, ?_, ?_, ?_⟩
    all_goals simp [he, hready]
  · refine ⟨?_, ?_, ?_, ?_, ?_⟩
    all_goals simp [he, hbare, hsmall, UInt64.not_le.mpr hsmall]
  · have hnot : ¬ ((g.arenaSize capacity).toNat ≤ 2 ^ 63 - 1 ∧ ∀ layout : Layout,
        layout.size = g.arenaSize capacity → layout.alignment = g.granularity →
          (a.store.answer a.store.requests layout).isSome = true) := by
      rintro ⟨hsmall, hall⟩
      cases hlayout : Layout.of? (g.arenaSize capacity) g.granularity with
      | none =>
        have hlarge := (Layout.of?_eq_none_iff (g.dvd_arenaSize capacity)).mp hlayout
        omega
      | some layout =>
        obtain ⟨hsize, halign⟩ := Layout.of?_eq_some_iff.mp hlayout
        have hsome := hall layout hsize halign
        rw [hnone layout hsize halign] at hsome
        cases hsome
    refine ⟨?_, ?_, ?_, fun _ _ _ => ⟨requests, he⟩, ?_⟩
    · simp only [he, reduceCtorEq, false_iff]
      exact fun h => hnot h.2.2
    all_goals simp [he, hbare, UInt64.not_lt.mpr hroom]
  · have hlayout := Layout.of?_eq_some_iff.mpr ⟨hsize, halign⟩
    have hsigned : ¬ 2 ^ 63 - 1 < (g.arenaSize capacity).toNat := fun hlarge => by
      rw [(Layout.of?_eq_none_iff (g.dvd_arenaSize capacity)).mpr hlarge] at hlayout
      cases hlayout
    refine ⟨?_, ?_, ?_, ?_, fun _ => ⟨.fresh g ⟨grant.base, layout, .blank grant.contents⟩, by rw [he],
      shape_fresh hg hsize hroom, ?_⟩⟩
    · simp only [he, true_iff]
      refine ⟨hbare, hroom, by omega, fun other hsize' halign' => ?_⟩
      have hother := Layout.of?_eq_some_iff.mpr ⟨hsize', halign'⟩
      rw [hlayout] at hother
      rw [← Option.some.inj hother, hgrant]
      rfl
    · simp [hbare]
    · simp [UInt64.not_lt.mpr hroom]
    · simp [he]
    · have hleast := Geometry.le_arenaSize hg hroom
      rw [UInt64.le_iff_toNat_le]
      show g.front ≤ _
      omega

end Exact

/-! ## Ledgers -/

/-- The transfers of an allocator alternate and lead to the arena that it has, and its store, which answers
as `store` does, granted all that it claimed. -/
structure Ledger (store : BackingStore) (a : Allocator g) : Prop where
  answer : a.store.answer = store.answer
  alternates : Alternates a.store.history a.extent
  granted : ∀ base layout, .claimed base layout ∈ a.store.history →
    ∃ n grant, store.answer n layout = some grant ∧ grant.base = base

theorem Ledger.stays (h : Ledger store a) (hs : a.Stays a') : Ledger store a' := by
  refine ⟨?_, ?_, ?_⟩
  · rw [hs.store]
    exact h.answer
  · rw [hs.store, hs.extent]
    exact h.alternates
  · rw [hs.store]
    exact h.granted

theorem Ledger.init (h : Ledger store a) (capacity : UInt64) : Ledger store (a.init capacity).2 := by
  rcases a.init_outcome capacity with ⟨-, he⟩ | ⟨-, -, he⟩ | ⟨hbare, -, -, requests, he⟩ |
    ⟨hbare, -, layout, grant, -, -, hgrant, he⟩
  · rw [he]
    exact h
  · rw [he]
    exact h
  · rw [he]
    exact ⟨h.answer, h.alternates, h.granted⟩
  · have hnone : a.extent = none := by
      unfold extent
      rw [Option.isSome_eq_false_iff.mp hbare |> Option.isNone_iff_eq_none.mp]
      rfl
    have halternates := h.alternates
    rw [hnone] at halternates
    rw [h.answer] at hgrant
    rw [he]
    refine ⟨h.answer, ?_, ?_⟩
    · rw [extent_fresh]
      exact .claim halternates grant.base layout
    · intro base other hmem
      rcases List.mem_cons.mp hmem with hhead | hmem
      · cases hhead
        exact ⟨_, grant, hgrant, rfl⟩
      · exact h.granted base other hmem

theorem Ledger.deinit (h : Ledger store a) : Ledger store a.deinit := by
  obtain ⟨own, _ | s⟩ := a
  · exact h
  · refine ⟨h.answer, .release h.alternates, ?_⟩
    intro base layout hmem
    rcases List.mem_cons.mp hmem with hhead | hmem
    · cases hhead
    · exact h.granted base layout hmem

/-- An allocator with an arena claimed once more than it gave back. -/
theorem Ledger.claims_eq (h : Ledger store a) :
    a.store.claims = a.store.releases + if a.isInitialized then 1 else 0 := by
  have hcount := h.alternates.countP
  rw [extent, Option.isSome_map] at hcount
  exact hcount

/-- Nothing is left to give back when an allocator goes out of scope. -/
theorem Ledger.drop (h : Ledger store a) : a.drop.claims = a.drop.releases := by
  have hcount := h.deinit.claims_eq
  rw [a.deinit_eq] at hcount
  exact hcount

end Allocator

/-! ## Mapped pages -/

namespace Mapping

variable {page : PowerOfTwo} {map : Nat → UInt64 → Option Grant}

/-- For a layout that a store of mapped pages grants, the machine was asked for the length that is unmapped
later: the sum that refuses to wrap did not, nor does the one that does not check. -/
theorem granted_length {n : Nat} {grant : Grant} (h : (store page map).answer n layout = some grant) :
    ∃ length, mappedLength? page layout = some length ∧ map n length = some grant ∧
      unmappedLength page layout = length ∧
      length.toNat = leastMultiple page.value.toNat layout.size.toNat := by
  obtain ⟨length, hlength, hmap⟩ := Option.bind_eq_some_iff.mp h
  refine ⟨length, hlength, hmap, ?_⟩
  unfold mappedLength? at hlength
  split at hlength
  · cases hlength
  · obtain ⟨hfit, rfl⟩ := (PowerOfTwo.roundUp?_eq_some_iff _ _ _).mp hlength
    exact ⟨rfl, PowerOfTwo.toNat_roundUp _ hfit⟩

end Mapping

/-! ## Events -/

/-- What happens to a world: a call, or that an allocator gives its arena back in another way. -/
inductive Event where
  | call (c : Call)
  | deinitUnchecked (k : Nat)
  /-- The allocator goes out of scope, and another one takes over its store. -/
  | drop (k : Nat)

namespace World

variable {geometry : Nat → Geometry} {hostOf : Nat → Nat} {w : World geometry hostOf} {k : Nat}
  {stores : Nat → BackingStore}

/-- The world after an event. -/
def live (w : World geometry hostOf) : Event → World geometry hostOf
  | .call c => (w.perform c).2
  | .deinitUnchecked k => w.setAllocator k (w.allocators k).deinitUnchecked
  | .drop k => (w.setAllocator k ⟨(w.allocators k).drop, none⟩).setTokens k [] []

/-- The world after some events, from the start. -/
def lives (stores : Nat → BackingStore) (events : List Event) : World geometry hostOf :=
  events.foldl live (start stores)

/-- What is to be said of the transfers of allocator `k`, which has the store `stores k`: they alternate,
with a claim more than there are releases if there is an arena; `init` claims as it should, `drop` leaves
nothing to give back, and what is given back was granted. If the store maps pages, it unmaps what it
mapped. -/
structure Accounted (stores : Nat → BackingStore) (w : World geometry hostOf) (k : Nat) : Prop where
  alternates : Alternates (w.allocators k).store.history (w.allocators k).extent
  claims : (w.allocators k).store.claims =
    (w.allocators k).store.releases + if (w.allocators k).isInitialized then 1 else 0
  dropped : (w.allocators k).drop.claims = (w.allocators k).drop.releases
  starts : ∀ capacity, (w.allocators k).Starts capacity
  returned : ∀ base layout, .released base layout ∈ (w.allocators k).store.history →
    .claimed base layout ∈ (w.allocators k).store.history ∧
      ∃ n grant, (stores k).answer n layout = some grant ∧ grant.base = base
  mapped : ∀ page map, stores k = Mapping.store page map → ∀ n layout grant,
    (stores k).answer n layout = some grant → ∃ length, Mapping.mappedLength? page layout = some length ∧
      map n length = some grant ∧ Mapping.unmappedLength page layout = length ∧
      length.toNat = leastMultiple page.value.toNat layout.size.toNat

/-- What holds of all allocators and of one that takes the place of another holds of all afterwards. -/
theorem forall_setAllocator {P : ∀ k, Allocator (geometry k) → Prop} (h : ∀ k, P k (w.allocators k)) {j : Nat}
    {a : Allocator (geometry j)} (ha : P j a) (k : Nat) : P k ((w.setAllocator j a).allocators k) := by
  by_cases hk : k = j
  · subst hk
    simp only [setAllocator, Function.update_self]
    exact ha
  · simp only [setAllocator, Function.update_of_ne hk]
    exact h k

theorem stays_setAllocator {j : Nat} {a : Allocator (geometry j)} (hs : (w.allocators j).Stays a) (k : Nat) :
    (w.allocators k).Stays ((w.setAllocator j a).allocators k) :=
  forall_setAllocator (P := fun k a => (w.allocators k).Stays a) (fun _ => .refl _) hs k

/-- No call but those that claim an arena or give it back moves one, even if it breaks the rules. -/
theorem perform_stays (w : World geometry hostOf) {call : Call} (hcall : call.arena? ≠ some k) :
    (w.allocators k).Stays ((w.perform call).2.allocators k) := by
  cases call with
  | init j capacity | deinit j =>
    have hk : k ≠ j := fun he => hcall (congrArg some he.symm)
    simp only [perform, setTokens, setAllocator, Function.update_of_ne hk]
    exact .refl _
  | acquire j size =>
    have hs := (w.allocators j).acquire_stays size
    simp only [perform]
    split
    all_goals
      rename_i he
      rw [he] at hs
      exact stays_setAllocator hs k
  | release j owner t =>
    have hs := (w.allocators j).release_stays t
    simp only [perform]
    split
    all_goals
      rename_i he
      rw [he] at hs
      exact stays_setAllocator hs k
  | resize j owner t? size =>
    have hs := (w.allocators j).resize_stays t? size
    simp only [perform]
    split
    all_goals
      rename_i he
      rw [he] at hs
      exact stays_setAllocator hs k
  | write j t place bytes => exact stays_setAllocator ((w.allocators j).write_stays _ _) k
  | list i call => exact stays_setList ((w.lists i).answer_stays (w.host (hostOf i)) call) _ k
  | recover j address =>
    simp only [perform]
    split
    · split <;> exact .refl _
    · exact .refl _
  | leak j t | usage j => exact .refl _

theorem live_ledger (h : ∀ k, (w.allocators k).Ledger (stores k)) (event : Event) (k : Nat) :
    ((w.live event).allocators k).Ledger (stores k) := by
  have hset {j : Nat} {a : Allocator (geometry j)} (ha : a.Ledger (stores j)) :
      ((w.setAllocator j a).allocators k).Ledger (stores k) :=
    forall_setAllocator (P := fun k a => a.Ledger (stores k)) h ha k
  cases event with
  | deinitUnchecked j => exact hset (h j).deinit
  | drop j =>
    have hdrop := (h j).deinit
    rw [Allocator.deinit_eq] at hdrop
    exact hset hdrop
  | call c =>
    cases c with
    | init j capacity => exact hset ((h j).init capacity)
    | deinit j => exact hset (h j).deinit
    | _ => exact (h k).stays (w.perform_stays nofun)

theorem lives_ledger (hnew : ∀ k, (stores k).history = []) (events : List Event) (k : Nat) :
    ((lives stores events : World geometry hostOf).allocators k).Ledger (stores k) := by
  have hstart (k : Nat) : ((start stores : World geometry hostOf).allocators k).Ledger (stores k) := by
    refine ⟨rfl, ?_, ?_⟩
    · show Alternates (stores k).history none
      rw [hnew]
      exact .start
    · intro base layout hmem
      have hmem' : Transfer.claimed base layout ∈ (stores k).history := hmem
      rw [hnew] at hmem'
      cases hmem'
  unfold lives
  generalize (start stores : World geometry hostOf) = w at hstart
  induction events generalizing w with
  | nil => exact hstart k
  | cons event events ih => exact ih _ (live_ledger hstart event)

/-- After any events, the transfers of every allocator are accounted for. -/
theorem lives_accounted (hg : ∀ k, (geometry k).Exact) (hnew : ∀ k, (stores k).history = [])
    (events : List Event) (k : Nat) : Accounted stores (lives stores events : World geometry hostOf) k := by
  have hledger : ((lives stores events : World geometry hostOf).allocators k).Ledger (stores k) :=
    lives_ledger hnew events k
  refine ⟨hledger.alternates, hledger.claims_eq, hledger.drop,
    fun capacity => Allocator.init_starts (hg k) _ capacity, fun base layout hreleased => ?_, ?_⟩
  · have hclaimed := hledger.alternates.claimed (Or.inr hreleased)
    exact ⟨hclaimed, hledger.granted base layout hclaimed⟩
  · intro page map hstore n layout grant hgrant
    rw [hstore] at hgrant
    exact Mapping.granted_length hgrant

/-- Stores of mapped pages for machines that map whatever they are asked to. -/
def mappings (_ : Nat) : BackingStore := Mapping.store (Mapping.pageSize 4096) fun _ _ => some ⟨65536, fun _ => 0⟩

/-- An arena with a block in it is given back, claimed again, dropped, and claimed a third time. -/
def renewals : List Event := [.call (.init 0 256), .call (.acquire 0 20), .deinitUnchecked 0,
  .call (.init 0 16), .call (.init 0 10000), .drop 0, .call (.init 0 64)]

theorem renewals_accounted :
    ((lives mappings renewals : World (fun _ => .standard) fun _ => 0).allocators 0).store.claims = 3 ∧
      Accounted mappings (lives mappings renewals : World (fun _ => .standard) fun _ => 0) 0 :=
  ⟨by decide +kernel, lives_accounted (fun _ => Geometry.standard_exact) (fun _ => rfl) renewals 0⟩

end World

end ArenaHeap
