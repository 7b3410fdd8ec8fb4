import ArenaHeap.Proofs.World.Basic
import Mathlib.Data.List.Basic

/-!
# What a world has lent

* `nodeTokens`, `World.loans` : the tokens of the nodes on an allocator, and of all that it handed out;
* `World.Sound` : every allocator lent what users and lists know of, each list is a chain of nodes, and
  arenas are apart;
* `Sound.mono` : there may be more lists than there are;
* `Sound.revise` : another allocator, and other tokens from it;
* `Sound.relist` : another chain, and its host as the list left it;
* `Sound.outside` : no arena has the addresses of another.
-/

namespace ArenaHeap

open World

variable {geometry : Nat → Geometry} {hostOf : Nat → Nat} {w w' : World geometry hostOf}
  {entries entries' : Nat → List Entry} {i j k n n' : Nat} {es : List Entry} {t : Token}

/-! ## Tokens of nodes -/

/-- The tokens of the nodes on allocator `k`, of the first `n` lists. -/
def nodeTokens (hostOf : Nat → Nat) (entries : Nat → List Entry) (n k : Nat) : List Token :=
  (List.range n).flatMap fun i => if hostOf i = k then (entries i).map Entry.token else []

theorem nodeTokens_succ (hostOf : Nat → Nat) (entries : Nat → List Entry) (n k : Nat) :
    nodeTokens hostOf entries (n + 1) k =
      nodeTokens hostOf entries n k ++ if hostOf n = k then (entries n).map Entry.token else [] := by
  unfold nodeTokens
  rw [List.range_succ, List.flatMap_append, List.flatMap_singleton, ← nodeTokens]

theorem nodeTokens_congr (h : ∀ i < n, hostOf i = k → entries i = entries' i) :
    nodeTokens hostOf entries n k = nodeTokens hostOf entries' n k := by
  apply List.flatMap_congr
  intro i hi
  split
  · rw [h i (List.mem_range.mp hi) ‹_›]
  · rfl

theorem mem_nodeTokens : t ∈ nodeTokens hostOf entries n k ↔
    ∃ i < n, hostOf i = k ∧ ∃ e ∈ entries i, e.token = t := by
  unfold nodeTokens
  rw [List.mem_flatMap]
  constructor
  · rintro ⟨i, hi, ht⟩
    split at ht
    · obtain ⟨e, he, rfl⟩ := List.mem_map.mp ht
      exact ⟨i, List.mem_range.mp hi, ‹_›, e, he, rfl⟩
    · cases ht
  · rintro ⟨i, hi, hhost, e, he, rfl⟩
    refine ⟨i, List.mem_range.mpr hi, ?_⟩
    rw [if_pos hhost]
    exact List.mem_map_of_mem he

theorem nodeTokens_split (hi : i < n) (entries : Nat → List Entry) (es : List Entry) :
    (nodeTokens hostOf (Function.update entries i es) n (hostOf i)).Perm
      (es.map Entry.token ++ nodeTokens hostOf (Function.update entries i []) n (hostOf i)) := by
  induction n with
  | zero => omega
  | succ n ih =>
    rw [nodeTokens_succ, nodeTokens_succ]
    by_cases hlast : i = n
    · subst hlast
      have hothers : nodeTokens hostOf (Function.update entries i es) i (hostOf i) =
          nodeTokens hostOf (Function.update entries i []) i (hostOf i) := by
        apply nodeTokens_congr
        intro j hj _
        rw [Function.update_of_ne (by omega), Function.update_of_ne (by omega)]
      rw [if_pos rfl, if_pos rfl, Function.update_self, Function.update_self, hothers, List.map_nil,
        List.append_nil]
      exact List.perm_append_comm
    · rw [Function.update_of_ne (Ne.symm hlast), Function.update_of_ne (Ne.symm hlast), ← List.append_assoc]
      exact (ih (by omega)).append_right _

theorem nodeTokens_update_of_ne (hk : hostOf i ≠ k) (entries : Nat → List Entry) (es : List Entry) :
    nodeTokens hostOf (Function.update entries i es) n k = nodeTokens hostOf entries n k := by
  apply nodeTokens_congr
  intro j _ hj
  rw [Function.update_of_ne]
  rintro rfl
  exact hk hj

/-! ## Loans -/

namespace World

/-- The tokens of all that allocator `k` handed out: to users, and to the first `n` lists. -/
def loans (w : World geometry hostOf) (entries : Nat → List Entry) (n k : Nat) : List Token :=
  w.held k ++ w.leaked k ++ nodeTokens hostOf entries n k

/-- Every allocator lent what users and the first `n` lists know of and nothing else, each list is the
chain of its entries, and no two arenas overlap. -/
structure Sound (w : World geometry hostOf) (entries : Nat → List Entry) (n : Nat) : Prop where
  lends : ∀ k, (w.allocators k).Lends (w.loans entries n k)
  holds : ∀ i, (w.lists i).Holds (w.allocators (hostOf i)) (entries i)
  bounded : ∀ i, n ≤ i → entries i = []
  apart : ∀ j k, j ≠ k → ∀ x ∈ (w.allocators j).extent, ∀ y ∈ (w.allocators k).extent, Apart x y

theorem Sound.start (stores : Nat → BackingStore) :
    (World.start stores : World geometry hostOf).Sound (fun _ => []) 0 where
  lends _ := .bare _
  holds _ := ⟨rfl, trivial⟩
  bounded _ _ := rfl
  apart _ _ _ _ hx := by cases hx

theorem allocators_setList_of_ne (hk : k ≠ hostOf i) (l : NodeList) (h : Host (geometry (hostOf i))) :
    (w.setList i l h).allocators k = w.allocators k := Function.update_of_ne hk _ _

theorem loans_setList_of_ne (hk : k ≠ hostOf i) (l : NodeList) (h : Host (geometry (hostOf i))) :
    (w.setList i l h).loans (Function.update entries i es) n k = w.loans entries n k := by
  rw [loans, nodeTokens_update_of_ne (Ne.symm hk)]
  rfl

/-- No arena moves if that of the host does not. -/
theorem stays_setList {h : Host (geometry (hostOf i))} (hstays : (w.allocators (hostOf i)).Stays h.allocator)
    (l : NodeList) (k : Nat) : (w.allocators k).Stays ((w.setList i l h).allocators k) := by
  by_cases hk : k = hostOf i
  · subst hk
    simp only [setList, setAllocator, Function.update_self]
    exact hstays
  · rw [allocators_setList_of_ne hk]
    exact ⟨rfl, rfl⟩

namespace Sound

theorem mono (hw : w.Sound entries n) (hn : n ≤ n') : w.Sound entries n' := by
  induction n', hn using Nat.le_induction with
  | base => exact hw
  | succ n' hn ih =>
    have hnone : entries n' = [] := hw.bounded n' hn
    have hsame (k : Nat) : w.loans entries (n' + 1) k = w.loans entries n' k := by
      rw [loans, nodeTokens_succ, hnone, List.map_nil, ite_self, List.append_nil, ← loans]
    refine ⟨?_, ih.holds, fun i hi => ih.bounded i (by omega), ih.apart⟩
    intro k
    rw [hsame]
    exact ih.lends k

theorem lt_of_mem (hw : w.Sound entries n) {e : Entry} (he : e ∈ entries i) : i < n := by
  by_contra hge
  rw [hw.bounded i (by omega)] at he
  cases he

theorem mem_nodes (hw : w.Sound entries n) {e : Entry} (he : e ∈ entries i) :
    e.token ∈ nodeTokens hostOf entries n (hostOf i) :=
  mem_nodeTokens.mpr ⟨i, hw.lt_of_mem he, rfl, e, he, rfl⟩

theorem mem_loans (hw : w.Sound entries n) {e : Entry} (he : e ∈ entries i) :
    e.token ∈ w.loans entries n (hostOf i) := List.mem_append_right _ (hw.mem_nodes he)

theorem loans_bare (hw : w.Sound entries n) (hbare : (w.allocators k).space = none) :
    w.loans entries n k = [] := (hw.lends k).eq_nil hbare

/-! ## Another allocator -/

/-- An allocator and the tokens from it may change, if the lists on it find their chains. -/
theorem revise (hw : w.Sound entries n) {a : Allocator (geometry k)} {held leaked : List Token}
    (hlends : a.Lends (held ++ leaked ++ nodeTokens hostOf entries n k))
    (hholds : ∀ i, hostOf i = k → (w.lists i).Holds a (entries i))
    (hapart : ∀ j ≠ k, ∀ x ∈ a.extent, ∀ y ∈ (w.allocators j).extent, Apart x y) :
    ((w.setAllocator k a).setTokens k held leaked).Sound entries n := by
  refine ⟨?_, ?_, hw.bounded, ?_⟩
  · intro j
    by_cases hj : j = k
    · subst hj
      simp only [loans, setTokens, setAllocator, Function.update_self]
      exact hlends
    · simp only [loans, setTokens, setAllocator, Function.update_of_ne hj]
      exact hw.lends j
  · intro i
    by_cases hi : hostOf i = k
    · subst hi
      simp only [setTokens, setAllocator, Function.update_self]
      exact hholds i rfl
    · simp only [setTokens, setAllocator, Function.update_of_ne hi]
      exact hw.holds i
  · intro j l hne x hx y hy
    by_cases hj : j = k
    · subst hj
      simp only [setTokens, setAllocator, Function.update_self, Function.update_of_ne hne.symm] at hx hy
      exact hapart l hne.symm x hx y hy
    · simp only [setTokens, setAllocator, Function.update_of_ne hj] at hx
      by_cases hl : l = k
      · subst hl
        simp only [setTokens, setAllocator, Function.update_self] at hy
        exact (hapart j hne y hy x hx).symm
      · simp only [setTokens, setAllocator, Function.update_of_ne hl] at hy
        exact hw.apart j l hne x hx y hy

/-! ## Another list -/

/-- The tokens that are not of list `i`. -/
def others (w : World geometry hostOf) (entries : Nat → List Entry) (n i : Nat) : List Token :=
  w.held (hostOf i) ++ w.leaked (hostOf i) ++ nodeTokens hostOf (Function.update entries i []) n (hostOf i)

theorem loans_split (w : World geometry hostOf) (hi : i < n) (entries : Nat → List Entry) (es : List Entry) :
    (w.loans (Function.update entries i es) n (hostOf i)).Perm
      (es.map Entry.token ++ others w entries n i) := by
  apply ((nodeTokens_split hi entries es).append_left _).trans
  unfold others
  rw [← List.append_assoc, ← List.append_assoc]
  exact List.perm_append_comm.append_right _

theorem mem_others (hw : w.Sound entries n) (hne : j ≠ i) (hj : hostOf j = hostOf i) {e : Entry}
    (he : e ∈ entries j) : e.token ∈ others w entries n i := by
  refine List.mem_append_right _ (mem_nodeTokens.mpr ⟨j, hw.lt_of_mem he, hj, e, ?_, rfl⟩)
  rwa [Function.update_of_ne hne]

theorem lends_list (hw : w.Sound entries n) (i : Nat) : (w.allocators (hostOf i)).Lends
    ((entries i).map Entry.token ++ others w entries (max n (i + 1)) i) := by
  have hlends := (hw.mono (Nat.le_max_left n (i + 1))).lends (hostOf i)
  have hperm := loans_split w (Nat.le_max_right n (i + 1)) entries (entries i)
  rw [Function.update_eq_self] at hperm
  exact hlends.perm hperm

theorem nodes_eq (hw : w.Sound entries n) (i : Nat) :
    (w.lists i).nodes (w.allocators (hostOf i)) = Entry.placed none (entries i) :=
  (hw.holds i).nodes_eq (hw.lends_list i)

/-- A list and its host may change, if the host spares the tokens that are not of the list. -/
theorem relist (hw : w.Sound entries n) (hi : i < n) {l : NodeList} {h : Host (geometry (hostOf i))}
    (hl : l.Holds h.allocator es) (hlends : h.allocator.Lends (es.map Entry.token ++ others w entries n i))
    (hspares : (w.allocators (hostOf i)).Spares h.allocator (others w entries n i)) :
    (w.setList i l h).Sound (Function.update entries i es) n := by
  refine ⟨?_, ?_, ?_, ?_⟩
  · intro k
    by_cases hk : k = hostOf i
    · subst hk
      simp only [setList, setAllocator, Function.update_self]
      exact hlends.perm (loans_split w hi entries es).symm
    · rw [allocators_setList_of_ne hk, loans_setList_of_ne hk]
      exact hw.lends k
  · -- Another list on the same host keeps its chain, since the host spares its nodes.
    intro j
    by_cases hj : j = i
    · subst hj
      simp only [setList, setAllocator, Function.update_self]
      exact hl
    · simp only [setList, setAllocator, Function.update_of_ne hj]
      have hold := hw.holds j
      by_cases hk : hostOf j = hostOf i
      · have hmem : ∀ e ∈ entries j, e.token ∈ others w entries n i := fun e he => hw.mem_others hj hk he
        rw [hk] at hold ⊢
        rw [Function.update_self]
        exact hold.spares hspares hmem
      · rw [Function.update_of_ne hk]
        exact hold
  · intro j hj
    rw [Function.update_of_ne (by omega)]
    exact hw.bounded j hj
  · intro j k hne x hx y hy
    rw [(stays_setList hspares.stays l _).extent] at hx hy
    exact hw.apart j k hne x hx y hy

/-! ## Arenas are apart -/

theorem address_inside (hw : w.Sound entries n) (ht : t ∈ w.loans entries n k) :
    ∃ x ∈ (w.allocators k).extent, x.1.toNat ≤ t.address.toNat ∧
      t.address.toNat < x.1.toNat + x.2.size.toNat := by
  obtain ⟨s, hs, hlo, hhi, hpos⟩ := (hw.lends k).inside ht
  refine ⟨(s.arena.base, s.arena.layout), by rw [Allocator.extent, hs]; rfl, by simp only; omega, ?_⟩
  have hcap : s.capacity.toNat = s.arena.layout.size.toNat := rfl
  simp only
  omega

theorem address_ne (hw : w.Sound entries n) (hne : j ≠ k) {t' : Token} (ht : t ∈ w.loans entries n j)
    (ht' : t' ∈ w.loans entries n k) : t.address ≠ t'.address := by
  intro he
  obtain ⟨x, hx, hxlo, hxhi⟩ := hw.address_inside ht
  obtain ⟨y, hy, hylo, hyhi⟩ := hw.address_inside ht'
  rw [he] at hxlo hxhi
  rcases hw.apart j k hne x hx y hy with hlt | hlt
  · omega
  · omega

theorem nodes_nodup (hw : w.Sound entries n) (i : Nat) :
    ((entries i).map fun e => e.token.address).Nodup := by
  have hnodup := (hw.lends_list i).nodup
  rw [List.map_append, List.map_map] at hnodup
  exact (List.nodup_append.mp hnodup).1

theorem node_address_ne (hw : w.Sound entries n) (hne : j ≠ i) {e e' : Entry} (he : e ∈ entries i)
    (he' : e' ∈ entries j) : e'.token.address ≠ e.token.address := by
  by_cases hhost : hostOf j = hostOf i
  · have hnodup := (hw.lends_list i).nodup
    rw [List.map_append, List.nodup_append] at hnodup
    have hmem := (hw.mono (Nat.le_max_left n (i + 1))).mem_others hne hhost he'
    exact (hnodup.2.2 _ (List.mem_map_of_mem (List.mem_map_of_mem he)) _ (List.mem_map_of_mem hmem)).symm
  · exact hw.address_ne hhost (hw.mem_loans he') (hw.mem_loans he)

/-- An allocator does not know the addresses of what another one lent. -/
theorem outside (hw : w.Sound entries n) (hne : j ≠ k) (ht : t ∈ w.loans entries n j) :
    (w.allocators k).Outside t.address := by
  intro s hs
  obtain ⟨x, hx, hxlo, hxhi⟩ := hw.address_inside ht
  have hy : (s.arena.base, s.arena.layout) ∈ (w.allocators k).extent := by
    unfold Allocator.extent
    rw [hs]
    rfl
  have hapart := hw.apart j k hne x hx _ hy
  unfold Arena.offsetOf?
  rw [if_neg]
  rintro ⟨hle, hlt⟩
  have hnat := UInt64.le_iff_toNat_le.mp hle
  rw [UInt64.lt_iff_toNat_lt, UInt64.toNat_sub_of_le _ _ hle] at hlt
  have hsize : s.arena.size.toNat = s.arena.layout.size.toNat := rfl
  rcases hapart with hlt' | hlt'
  · simp only at hlt'
    omega
  · simp only at hlt'
    omega

end Sound

end World

end ArenaHeap
