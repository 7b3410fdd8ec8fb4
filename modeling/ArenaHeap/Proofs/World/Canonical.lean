import ArenaHeap.Proofs.Loans.Canonical
import ArenaHeap.Proofs.World.Steps

/-!
# The order of releases does not matter

* `World.releaseAll` : releases tokens one after the other; `tokensOf` are those of one allocator;
* `Sound.releases` : what is lent after that;
* `World.Canonical` : an arena has the canonical shape of its pairs, and what follows from it for releases
  in any order and for a block that is acquired and released;
* `Reachable.shapes_canonical` : every reachable world is canonical.
-/

namespace ArenaHeap

/-- The tokens of allocator `k` among tokens with the numbers of their allocators. -/
def tokensOf (L : List (Nat × Token)) (k : Nat) : List Token := (L.filter fun p => p.1 = k).map Prod.snd

theorem tokensOf_append (L L' : List (Nat × Token)) (k : Nat) :
    tokensOf (L ++ L') k = tokensOf L k ++ tokensOf L' k := by
  rw [tokensOf, List.filter_append, List.map_append, tokensOf, tokensOf]

theorem tokensOf_self (k : Nat) (t : Token) : tokensOf [(k, t)] k = [t] := by
  simp [tokensOf]

theorem tokensOf_of_ne {j k : Nat} (hne : j ≠ k) (t : Token) : tokensOf [(j, t)] k = [] := by
  simp [tokensOf, hne]

namespace World

variable {geometry : Nat → Geometry} {hostOf : Nat → Nat} {w : World geometry hostOf}
  {entries : Nat → List Entry} {k n : Nat} {s : BlockSpace (geometry k)} {t : Token}
  {L L' : List (Nat × Token)}

/-- The world after the tokens were released in order, each to the allocator that it came from. -/
def releaseAll (w : World geometry hostOf) (L : List (Nat × Token)) : World geometry hostOf :=
  L.foldl (fun w p => (w.perform (.release p.1 p.1 p.2)).2) w

/-- The shape of an arena is determined by what is handed out. A release takes one pair away, so that
releases in any order lead to the same shape, and to a single free block if all is released. A block that
is acquired and released leaves no trace. -/
structure Canonical (w : World geometry hostOf) (k : Nat) (s : BlockSpace (geometry k)) : Prop where
  shape : s.shape = Shape.canonical (geometry k) s.capacity s.pairs
  determined : ∀ {hostOf' : Nat → Nat} {stores' : Nat → BackingStore} (w' : World geometry hostOf'),
    Reachable stores' w' → ∀ s', (w'.allocators k).space = some s' → s'.capacity = s.capacity →
      (∀ p, p ∈ s'.pairs ↔ p ∈ s.pairs) → s'.shape = s.shape
  release : ∀ owner t, t ∈ w.held owner → (w.perform (.release k owner t)).1 = .done (.ok ()) →
    ∃ s' p, ((w.perform (.release k owner t)).2.allocators k).space = some s' ∧ s.pairToken p = t ∧
      s.pairs.Perm (p :: s'.pairs)
  accepted : ∀ L, (∀ j, (tokensOf L j).Subperm (w.held j)) → ∀ L₁ j t L₂, L = L₁ ++ (j, t) :: L₂ →
    ((w.releaseAll L₁).perform (.release j j t)).1 = .done (.ok ())
  orders : ∀ L L', L.Perm L' → (∀ j, (tokensOf L j).Subperm (w.held j)) →
    ∃ s₁ s₂, ((w.releaseAll L).allocators k).space = some s₁ ∧
      ((w.releaseAll L').allocators k).space = some s₂ ∧ s₁.shape = s₂.shape
  restored : ∀ size t w₁, w.perform (.acquire k size) = (.token (.ok t), w₁) →
    ∃ w₂ s₂, w₁.perform (.release k k t) = (.done (.ok ()), w₂) ∧ (w₂.allocators k).space = some s₂ ∧
      s₂.shape = s.shape ∧ (w₂.perform (.acquire k size)).1 = .token (.ok t)
  emptied : ∀ L, (∀ j, (tokensOf L j).Subperm (w.held j)) → (tokensOf L k).Perm (s.allocated.map s.loan) →
    ∃ s', ((w.releaseAll L).allocators k).space = some s' ∧
      s'.shape = Shape.single (geometry k) s.capacity
  reclaimed : ∀ ps : List (UInt64 × UInt64), ps.Perm s.pairs →
    (ps.foldl (fun s p => s.reclaim p.1) s).shape = Shape.single (geometry k) s.capacity

/-! ## Releases in order -/

theorem Sound.release_first (hw : w.Sound entries n) (ht : t ∈ w.held k) :
    ∃ w', w.perform (.release k k t) = (.done (.ok ()), w') ∧ w'.Sound entries n ∧ w'.leaked = w.leaked ∧
      ∀ j, (w'.allocators j).extent = (w.allocators j).extent ∧
        (w.held j).Perm (tokensOf [(k, t)] j ++ w'.held j) := by
  obtain ⟨a, he, hextent, hadvances⟩ := hw.release_own ht (.release k k t) rfl rfl
  refine ⟨_, by simp only [World.perform, he], (hadvances (.done (.ok ()))).sound, ?_, ?_⟩
  · simp only [setTokens, setAllocator, Function.update_eq_self]
  · intro j
    by_cases hj : j = k
    · subst hj
      rw [tokensOf_self]
      simp only [setTokens, setAllocator, Function.update_self]
      exact ⟨hextent, List.perm_cons_erase ht⟩
    · rw [tokensOf_of_ne (Ne.symm hj)]
      simp only [setTokens, setAllocator, Function.update_of_ne hj]
      exact ⟨trivial, .refl _⟩

theorem Sound.releases (hw : w.Sound entries n) (hL : ∀ j, (tokensOf L j).Subperm (w.held j)) :
    (w.releaseAll L).Sound entries n ∧ (w.releaseAll L).leaked = w.leaked ∧
      ∀ j, ((w.releaseAll L).allocators j).extent = (w.allocators j).extent ∧
        (w.held j).Perm (tokensOf L j ++ (w.releaseAll L).held j) := by
  -- The tokens may be from several allocators: what is still held is counted for each of them.
  induction L generalizing w with
  | nil => exact ⟨hw, rfl, fun j => ⟨rfl, .refl _⟩⟩
  | cons p L ih =>
    obtain ⟨k, t⟩ := p
    have hsplit (j : Nat) : tokensOf ((k, t) :: L) j = tokensOf [(k, t)] j ++ tokensOf L j :=
      tokensOf_append [(k, t)] L j
    have hhead := hL k
    rw [hsplit, tokensOf_self] at hhead
    obtain ⟨w', he, hw', hleaked, hfirst⟩ := hw.release_first (hhead.subset List.mem_cons_self)
    obtain ⟨hsound, hleaked', hall⟩ := ih hw' fun j => by
      have hboth := hL j
      rw [hsplit, (hfirst j).2.subperm_left] at hboth
      exact (List.subperm_append_left _).mp hboth
    have hstep : w.releaseAll ((k, t) :: L) = w'.releaseAll L := by
      simp only [releaseAll, List.foldl_cons, he]
    rw [hstep]
    refine ⟨hsound, hleaked'.trans hleaked, fun j => ⟨(hall j).1.trans (hfirst j).1, ?_⟩⟩
    rw [hsplit, List.append_assoc]
    exact (hfirst j).2.trans ((hall j).2.append_left _)

theorem loans_of_held (entries : Nat → List Entry) (n : Nat) {w' : World geometry hostOf} {toks : List Token}
    (hheld : (w.held k).Perm (toks ++ w'.held k)) (hleaked : w'.leaked = w.leaked) :
    (w.loans entries n k).Perm (toks ++ w'.loans entries n k) := by
  have hperm := (hheld.append_right (w.leaked k)).append_right (nodeTokens hostOf entries n k)
  rw [loans, loans, hleaked]
  simpa only [List.append_assoc] using hperm

theorem space_of_extent {g : Geometry} {a a' : Allocator g} {s : BlockSpace g} (hs : a.space = some s)
    (hextent : a'.extent = a.extent) : ∃ s', a'.space = some s' ∧ s'.arena.base = s.arena.base ∧
      s'.capacity = s.capacity := by
  rw [Allocator.extent, Allocator.extent, hs] at hextent
  obtain ⟨s', hs', hsame⟩ := Option.map_eq_some_iff.mp hextent
  obtain ⟨hbase, hlayout⟩ := Prod.mk.inj hsame
  exact ⟨s', hs', hbase, congrArg Layout.size hlayout⟩

/-! ## One release -/

theorem Sound.release_pair (hw : w.Sound entries n) (hs : (w.allocators k).space = some s) {owner : Nat}
    (ht : t ∈ w.held owner) (hok : (w.perform (.release k owner t)).1 = .done (.ok ())) :
    ∃ s' p, ((w.perform (.release k owner t)).2.allocators k).space = some s' ∧ s.pairToken p = t ∧
      s.pairs.Perm (p :: s'.pairs) := by
  by_cases hown : owner = k
  · subst hown
    obtain ⟨w', he, hw', hleaked, hfirst⟩ := hw.release_first ht
    obtain ⟨s', hs', hbase, -⟩ := space_of_extent hs (hfirst owner).1
    have hperm := loans_of_held entries n (hfirst owner).2 hleaked
    rw [tokensOf_self] at hperm
    have hmem := ((hw.lends owner).pairs hs).mem_iff.mp (mem_loans_held w entries n ht)
    obtain ⟨p, -, rfl⟩ := List.mem_map.mp hmem
    rw [he]
    exact ⟨s', p, hs', rfl, (hw.lends owner).pairs_perm (hw'.lends owner) hs hs' hbase (L := [p]) hperm⟩
  · obtain ⟨fault, he, -⟩ := hw.release_foreign hown ht (.release k owner t) rfl
    simp only [World.perform, he] at hok
    cases hok

/-! ## Releases in any order -/

theorem Sound.releases_accepted (hw : w.Sound entries n) (hL : ∀ j, (tokensOf L j).Subperm (w.held j))
    {L₁ L₂ : List (Nat × Token)} {j : Nat} (he : L = L₁ ++ (j, t) :: L₂) :
    ((w.releaseAll L₁).perform (.release j j t)).1 = .done (.ok ()) := by
  have hprefix (l : Nat) : (tokensOf L₁ l).Subperm (w.held l) := by
    have hboth := hL l
    rw [he, tokensOf_append] at hboth
    exact (List.sublist_append_left _ _).subperm.trans hboth
  obtain ⟨hw', -, hall⟩ := hw.releases hprefix
  have hrest := hL j
  rw [he, tokensOf_append, (hall j).2.subperm_left, List.subperm_append_left] at hrest
  have hmem : t ∈ tokensOf ((j, t) :: L₂) j := List.mem_map.mpr ⟨(j, t), by simp, rfl⟩
  obtain ⟨w'', hrelease, -⟩ := hw'.release_first (hrest.subset hmem)
  rw [hrelease]

theorem Sound.releases_congr (hw : w.Sound entries n) (hs : (w.allocators k).space = some s)
    (hperm : L.Perm L') (hL : ∀ j, (tokensOf L j).Subperm (w.held j)) :
    ∃ s₁ s₂, ((w.releaseAll L).allocators k).space = some s₁ ∧
      ((w.releaseAll L').allocators k).space = some s₂ ∧ s₁.shape = s₂.shape := by
  have htokens (j : Nat) : (tokensOf L j).Perm (tokensOf L' j) := (hperm.filter _).map _
  obtain ⟨hw₁, hleaked₁, hall₁⟩ := hw.releases hL
  obtain ⟨hw₂, hleaked₂, hall₂⟩ := hw.releases fun j => (htokens j).symm.subperm.trans (hL j)
  obtain ⟨s₁, hs₁, -⟩ := space_of_extent hs (hall₁ k).1
  obtain ⟨s₂, hs₂, -⟩ := space_of_extent hs (hall₂ k).1
  refine ⟨s₁, s₂, hs₁, hs₂, (hw₂.lends k).shape_congr (hw₁.lends k) hs₂ hs₁ ?_ ?_⟩
  · rw [(hall₁ k).1, (hall₂ k).1]
  · have hloans₁ := loans_of_held entries n (hall₁ k).2 hleaked₁
    have hloans₂ := loans_of_held entries n (hall₂ k).2 hleaked₂
    have hsame := hloans₂.symm.trans (hloans₁.trans ((htokens k).append_right _))
    exact (List.perm_append_left_iff _).mp hsame

theorem Sound.releases_all (hw : w.Sound entries n) (hs : (w.allocators k).space = some s)
    (hL : ∀ j, (tokensOf L j).Subperm (w.held j)) (hall : (tokensOf L k).Perm (s.allocated.map s.loan)) :
    ∃ s', ((w.releaseAll L).allocators k).space = some s' ∧
      s'.shape = Shape.single (geometry k) s.capacity := by
  obtain ⟨hw', hleaked, hafter⟩ := hw.releases hL
  obtain ⟨s', hs', -, hcapacity⟩ := space_of_extent hs (hafter k).1
  have hperm := loans_of_held entries n (hafter k).2 hleaked
  have hlength := (hperm.symm.trans (((hw.lends k).allocated hs).trans hall.symm)).length_eq
  rw [List.length_append, Nat.add_eq_left] at hlength
  have hpairs := (hw'.lends k).pairs hs'
  rw [List.length_eq_zero_iff.mp hlength] at hpairs
  obtain ⟨ts, hsound⟩ := (hw'.lends k).sound hs'
  refine ⟨s', hs', ?_⟩
  rw [← hcapacity]
  exact hsound.shape_single (List.map_eq_nil_iff.mp (List.nil_perm.mp hpairs))

/-! ## A block that leaves no trace -/

theorem Sound.acquire_release (hg : (geometry k).Exact) (hw : w.Sound entries n)
    (hs : (w.allocators k).space = some s) {size : UInt64} {w₁ : World geometry hostOf}
    (he : w.perform (.acquire k size) = (.token (.ok t), w₁)) :
    ∃ w₂ s₂, w₁.perform (.release k k t) = (.done (.ok ()), w₂) ∧ (w₂.allocators k).space = some s₂ ∧
      s₂.shape = s.shape ∧ (w₂.perform (.acquire k size)).1 = .token (.ok t) := by
  have hadvances := hw.acquire (k := k) hg size
  rw [he] at hadvances
  rcases (hw.lends k).acquire_cases hg size with ⟨fault, hacquire⟩ | ⟨t', a, hacquire, -, -, hspares⟩
  · simp only [World.perform, hacquire] at he
    cases he
  · simp only [World.perform, hacquire] at he
    obtain ⟨ht, rfl⟩ := Prod.mk.inj he
    obtain rfl : t' = t := by cases ht; rfl
    have hheld : t' ∈ ((w.setAllocator k a).setTokens k (t' :: w.held k) (w.leaked k)).held k := by
      simp only [setTokens, Function.update_self]
      exact List.mem_cons_self
    obtain ⟨w₂, hrelease, hw₂, hleaked, hfirst⟩ := hadvances.sound.release_first hheld
    have hperm := loans_of_held entries n (hfirst k).2 hleaked
    have hloans : ((w.setAllocator k a).setTokens k (t' :: w.held k) (w.leaked k)).loans entries n k =
        t' :: w.loans entries n k := by
      simp only [loans, setTokens, Function.update_self, List.cons_append]
    have hsame : (w₂.allocators k).extent = (w.allocators k).extent := by
      rw [(hfirst k).1]
      simp only [setTokens, setAllocator, Function.update_self]
      exact hspares.extent
    rw [hloans, tokensOf_self] at hperm
    obtain ⟨s₂, hs₂, -⟩ := space_of_extent hs hsame
    refine ⟨w₂, s₂, hrelease, hs₂, (hw.lends k).shape_congr (hw₂.lends k) hs hs₂ hsame hperm.cons_inv, ?_⟩
    rw [perform_acquire, (hw.lends k).acquire_congr hg (hw₂.lends k) hsame hperm.cons_inv, hacquire]

/-! ## Reachable worlds -/

/-- Every reachable world is canonical. -/
theorem Reachable.shapes_canonical {stores : Nat → BackingStore} (hg : ∀ k, (geometry k).Exact)
    (h : Reachable stores w) (hs : (w.allocators k).space = some s) : w.Canonical k s := by
  obtain ⟨entries, n, hw⟩ := h.sound hg
  obtain ⟨ts, hsound⟩ := (hw.lends k).sound hs
  refine ⟨hsound.shape_eq, fun w' hw' s' hs' hcapacity hpairs => ?_,
    fun owner t ht hok => hw.release_pair hs ht hok,
    fun L hL L₁ j t L₂ he => hw.releases_accepted hL he, fun L L' hperm hL => hw.releases_congr hs hperm hL,
    fun size t w₁ he => hw.acquire_release (hg k) hs he, fun L hL hall => hw.releases_all hs hL hall,
    fun ps hperm => ?_⟩
  · obtain ⟨entries', n', hw'⟩ := hw'.sound hg
    obtain ⟨ts', hsound'⟩ := (hw'.lends k).sound hs'
    apply hsound.shape_congr hsound' hcapacity
    exact (List.perm_ext_iff_of_nodup hsound'.pairs_nodup hsound.pairs_nodup).mpr hpairs
  · rw [← List.append_nil ps] at hperm
    obtain ⟨ts', hsound', hcapacity, hnone⟩ := hsound.reclaims hperm.symm
    rw [← hcapacity]
    exact hsound'.shape_single hnone.eq_nil

theorem tiny_canonical : ∃ s, (tiny.allocators 0).space = some s ∧ tiny.Canonical 0 s := by
  have hready : (tiny.allocators 0).space.isSome = true := by decide +kernel
  obtain ⟨s, hs⟩ := Option.isSome_iff_exists.mp hready
  exact ⟨s, hs, tiny_reachable.shapes_canonical (fun _ => Geometry.standard_exact) hs⟩

end World

end ArenaHeap
