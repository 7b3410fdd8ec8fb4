import ArenaHeap.Proofs.Geometry
import Mathlib.Order.Bounds.Defs

/-!
# Masking is rounding

* `multiplesFrom`, `multiplesUpTo` : the multiples of a number on both sides of another one;
* `PowerOfTwo.Rounds` : what the mask of a power of two does to words, said by multiples;
* `PowerOfTwo.rounds` : so it is for every power of two;
* `Geometry.Padded` : the constants of a geometry and the sizes that it serves, said by multiples;
* `Geometry.masks_round_exactly` : so it is for every geometry whose constants do not wrap.
-/

namespace ArenaHeap

/-! ## Multiples -/

/-- The multiples of `p` that are not below `n`. -/
def multiplesFrom (p n : Nat) : Set Nat := {k | p ∣ k ∧ n ≤ k}

/-- The multiples of `p` that are not above `n`. -/
def multiplesUpTo (p n : Nat) : Set Nat := {k | p ∣ k ∧ k ≤ n}

theorem isLeast_leastMultiple {p : Nat} (hp : 0 < p) (n : Nat) :
    IsLeast (multiplesFrom p n) (leastMultiple p n) :=
  ⟨⟨dvd_leastMultiple p n, le_leastMultiple hp n⟩, fun _ hk => leastMultiple_le hp hk.1 hk.2⟩

theorem isLeast_multiplesFrom_iff {p : Nat} (hp : 0 < p) {n k : Nat} :
    IsLeast (multiplesFrom p n) k ↔ k = leastMultiple p n := by
  constructor
  · intro hk
    have hleast := isLeast_leastMultiple hp n
    exact Nat.le_antisymm (hk.2 hleast.1) (hleast.2 hk.1)
  · rintro rfl
    exact isLeast_leastMultiple hp n

theorem isGreatest_div_mul (p n : Nat) : IsGreatest (multiplesUpTo p n) (n / p * p) := by
  refine ⟨⟨Nat.dvd_mul_left p _, Nat.div_mul_le_self n p⟩, ?_⟩
  rintro k ⟨⟨m, rfl⟩, hle⟩
  rcases Nat.eq_zero_or_pos p with rfl | hp
  · simp
  · rw [Nat.mul_comm]
    exact Nat.mul_le_mul_right p ((Nat.le_div_iff_mul_le hp).mpr (by rwa [Nat.mul_comm]))

/-- Every multiple of `p` is its own least multiple. -/
theorem leastMultiple_of_dvd {p n : Nat} (hp : 0 < p) (hdvd : p ∣ n) : leastMultiple p n = n :=
  Nat.le_antisymm (leastMultiple_le hp hdvd (Nat.le_refl n)) (le_leastMultiple hp n)

/-- Rounding up is below a multiple if and only if the number is. -/
theorem leastMultiple_le_iff {p n c : Nat} (hp : 0 < p) (hc : p ∣ c) : leastMultiple p n ≤ c ↔ n ≤ c :=
  ⟨fun h => Nat.le_trans (le_leastMultiple hp n) h, fun h => leastMultiple_le hp hc h⟩

/-! ## Words -/

namespace PowerOfTwo

variable {p : PowerOfTwo} {n m c : UInt64}

theorem value_pos (p : PowerOfTwo) : 0 < p.value.toNat := Nat.pos_of_isPowerOfTwo p.isPower

theorem exists_exponent (p : PowerOfTwo) : ∃ k < 64, p.value.toNat = 2 ^ k := by
  obtain ⟨k, hk⟩ := p.isPower
  have hlt : 2 ^ k < 2 ^ 64 := hk ▸ p.value.toNat_lt
  exact ⟨k, (Nat.pow_lt_pow_iff_right (by decide)).mp hlt, hk⟩

theorem dvd_size (p : PowerOfTwo) : p.value.toNat ∣ 2 ^ 64 := by
  obtain ⟨k, hk, he⟩ := p.exists_exponent
  rw [he]
  exact Nat.pow_dvd_pow 2 (Nat.le_of_lt hk)

/-- The sum with the mask leaves the words if and only if the least multiple does. -/
theorem fits_iff (p : PowerOfTwo) (n : UInt64) :
    n.toNat + (p.value.toNat - 1) < 2 ^ 64 ↔ leastMultiple p.value.toNat n.toNat < 2 ^ 64 := by
  have hle := leastMultiple_le_add p.value.toNat n.toNat
  refine ⟨fun h => Nat.lt_of_le_of_lt hle h, fun h => Nat.lt_of_not_le fun hover => ?_⟩
  -- The last multiple that is not above the sum is not below `2 ^ 64`, which is a multiple itself.
  have hgreatest := (isGreatest_div_mul p.value.toNat (n.toNat + (p.value.toNat - 1))).2
  have hsize := hgreatest ⟨p.dvd_size, hover⟩
  exact Nat.lt_irrefl _ (Nat.lt_of_le_of_lt hsize h)

theorem roundUp?_some_iff : p.roundUp? n = some m ↔ m.toNat = leastMultiple p.value.toNat n.toNat := by
  rw [roundUp?_eq_some_iff]
  constructor
  · rintro ⟨hfit, rfl⟩
    exact toNat_roundUp p hfit
  · intro hm
    have hfit := (p.fits_iff n).mpr (hm ▸ m.toNat_lt)
    exact ⟨hfit, UInt64.toNat.inj (hm.trans (toNat_roundUp p hfit).symm)⟩

theorem roundUp?_none_iff : p.roundUp? n = none ↔ 2 ^ 64 ≤ leastMultiple p.value.toNat n.toNat := by
  have hfits := p.fits_iff n
  rw [roundUp?_eq_none_iff, UInt64.size]
  omega

theorem roundUp_of_some (h : p.roundUp? n = some m) : p.roundUp n = m :=
  ((roundUp?_eq_some_iff p n m).mp h).2.symm

/-- Where the least multiple is out of reach, the sum wraps below the power. -/
theorem roundUp_of_none (h : p.roundUp? n = none) : p.roundUp n = 0 := by
  have hover := (roundUp?_eq_none_iff p n).mp h
  have hpos := p.value_pos
  have hp := p.value.toNat_lt
  have hn := n.toNat_lt
  rw [UInt64.size] at hover
  have hsum : (n + p.mask).toNat = n.toNat + (p.value.toNat - 1) - 2 ^ 64 := by
    rw [UInt64.toNat_add, toNat_mask]
    omega
  apply UInt64.toNat.inj
  rw [show p.roundUp n = p.roundDown (n + p.mask) from rfl, toNat_roundDown, hsum,
    Nat.div_eq_of_lt (by omega), Nat.zero_mul]
  rfl

/-- What the mask of `p` makes of words: rounding up to the least multiple if that is a word, rounding down to the
greatest multiple, and the remainder. Rounding is monotone and keeps multiples, and what is rounded up is not above
a multiple if and only if the word was not. -/
structure Rounds (p : PowerOfTwo) : Prop where
  power : ∃ k < 64, p.value.toNat = 2 ^ k
  up : ∀ n : UInt64, ∃ k, IsLeast (multiplesFrom p.value.toNat n.toNat) k ∧
    (∀ m, p.roundUp? n = some m ↔ m.toNat = k ∧ k < 2 ^ 64) ∧ (p.roundUp? n = none ↔ 2 ^ 64 ≤ k)
  unchecked : ∀ n m, p.roundUp? n = some m → p.roundUp n = m
  wraps : ∀ n, p.roundUp? n = none → p.roundUp n = 0
  down : ∀ n, IsGreatest (multiplesUpTo p.value.toNat n.toNat) (p.roundDown n).toNat
  remainder : ∀ n, (p.rem n).toNat = n.toNat % p.value.toNat
  up_mono : ∀ n n' m', n ≤ n' → p.roundUp? n' = some m' → ∃ m, p.roundUp? n = some m ∧ m ≤ m'
  down_mono : ∀ n n', n ≤ n' → p.roundDown n ≤ p.roundDown n'
  up_idem : ∀ n m, p.roundUp? n = some m → p.roundUp? m = some m
  down_idem : ∀ n, p.roundDown (p.roundDown n) = p.roundDown n
  up_le_iff : ∀ n c, p.value.toNat ∣ c.toNat → ((∃ m, p.roundUp? n = some m ∧ m ≤ c) ↔ n ≤ c)
  unchecked_le_iff : ∀ n c, p.roundUp? n ≠ none → p.value.toNat ∣ c.toNat → (p.roundUp n ≤ c ↔ n ≤ c)

theorem roundUp?_le_iff (hc : p.value.toNat ∣ c.toNat) : (∃ m, p.roundUp? n = some m ∧ m ≤ c) ↔ n ≤ c := by
  have hiff := leastMultiple_le_iff (n := n.toNat) p.value_pos hc
  constructor
  · rintro ⟨m, hm, hle⟩
    rw [UInt64.le_iff_toNat_le, roundUp?_some_iff.mp hm] at hle
    exact UInt64.le_iff_toNat_le.mpr (hiff.mp hle)
  · intro hle
    have hbelow := hiff.mpr (UInt64.le_iff_toNat_le.mp hle)
    have hword := Word.toNat_ofNat (Nat.lt_of_le_of_lt hbelow c.toNat_lt)
    refine ⟨_, roundUp?_some_iff.mpr hword, ?_⟩
    rw [UInt64.le_iff_toNat_le, hword]
    exact hbelow

theorem dvd_of_roundUp? (h : p.roundUp? n = some m) : p.value.toNat ∣ m.toNat := by
  rw [roundUp?_some_iff.mp h]
  exact dvd_leastMultiple _ _

theorem roundUp?_of_dvd (hdvd : p.value.toNat ∣ n.toNat) : p.roundUp? n = some n :=
  roundUp?_some_iff.mpr (leastMultiple_of_dvd p.value_pos hdvd).symm

theorem isGreatest_roundDown (p : PowerOfTwo) (n : UInt64) :
    IsGreatest (multiplesUpTo p.value.toNat n.toNat) (p.roundDown n).toNat := by
  rw [toNat_roundDown]
  exact isGreatest_div_mul _ _

theorem roundDown_mono {n' : UInt64} (h : n ≤ n') : p.roundDown n ≤ p.roundDown n' := by
  rw [UInt64.le_iff_toNat_le] at h ⊢
  obtain ⟨hdvd, hle⟩ := (p.isGreatest_roundDown n).1
  exact (p.isGreatest_roundDown n').2 ⟨hdvd, Nat.le_trans hle h⟩

theorem roundDown_roundDown (p : PowerOfTwo) (n : UInt64) : p.roundDown (p.roundDown n) = p.roundDown n := by
  apply UInt64.toNat.inj
  have houter := p.isGreatest_roundDown (p.roundDown n)
  exact Nat.le_antisymm houter.1.2 (houter.2 ⟨(p.isGreatest_roundDown n).1.1, Nat.le_refl _⟩)

/-- The mask of every power of two rounds. -/
theorem rounds (p : PowerOfTwo) : p.Rounds where
  power := p.exists_exponent
  up n := by
    refine ⟨_, isLeast_leastMultiple p.value_pos n.toNat, fun m => ?_, roundUp?_none_iff⟩
    rw [roundUp?_some_iff]
    exact ⟨fun hm => ⟨hm, hm ▸ m.toNat_lt⟩, fun hm => hm.1⟩
  unchecked _ _ := roundUp_of_some
  wraps _ := roundUp_of_none
  down := p.isGreatest_roundDown
  remainder := p.toNat_rem
  up_mono n n' m' hle h := by
    have hn' := (roundUp?_le_iff (dvd_of_roundUp? h)).mp ⟨m', h, UInt64.le_refl m'⟩
    exact (roundUp?_le_iff (dvd_of_roundUp? h)).mpr (UInt64.le_trans hle hn')
  down_mono _ _ := roundDown_mono
  up_idem _ _ h := roundUp?_of_dvd (dvd_of_roundUp? h)
  down_idem := p.roundDown_roundDown
  up_le_iff _ _ := roundUp?_le_iff
  unchecked_le_iff n c hsome hc := by
    obtain ⟨m, hm⟩ := Option.ne_none_iff_exists'.mp hsome
    have hiff := roundUp?_le_iff (n := n) hc
    rw [hm] at hiff
    rw [roundUp_of_some hm, ← hiff]
    exact ⟨fun hle => ⟨m, rfl, hle⟩, fun ⟨m', hm', hle⟩ => Option.some.inj hm' ▸ hle⟩

/-- A word is taken for a power of two if and only if it is one. -/
theorem ofWord?_some_iff {word : UInt64} : ofWord? word = some p ↔ p.value = word := by
  unfold ofWord?
  split
  · rw [Option.some.injEq]
    refine ⟨fun h => by rw [← h], fun h => ?_⟩
    cases p
    cases h
    rfl
  · rename_i hnot
    refine ⟨nofun, fun h => absurd ?_ hnot⟩
    rw [← h]
    exact p.isPower

end PowerOfTwo

/-! ## Constants and requests -/

namespace Geometry

variable {g : Geometry}

/-- The constants of a geometry are what the padding of a header and of a least block makes them, and a request is
served by the least multiple of the granularity that holds it. -/
structure Padded (g : Geometry) : Prop where
  power : ∃ k < 64, g.granularity.value.toNat = 2 ^ k
  coarse : 8 ≤ g.granularity.value.toNat
  header : IsLeast (multiplesFrom g.granularity.value.toNat 24) g.headerSize.toNat
  block : IsLeast (multiplesFrom g.granularity.value.toNat (max g.leastBlock.toNat 1)) g.minimumBlock.toNat
  threshold : g.splitThreshold.toNat = g.headerSize.toNat + g.minimumBlock.toNat
  multiples : ∀ size ∈ [g.headerSize, g.minimumBlock, g.splitThreshold],
    0 < size.toNat ∧ g.granularity.value.toNat ∣ size.toNat
  served : ∀ size capacity a, g.alignedSize size capacity = .ok a ↔
    1 ≤ size ∧ size ≤ capacity ∧ IsLeast (multiplesFrom g.granularity.value.toNat size.toNat) a.toNat
  empty : ∀ size capacity, g.alignedSize size capacity = .error .zeroSize ↔ size = 0
  large : ∀ size capacity, g.alignedSize size capacity = .error (.tooLarge size capacity) ↔
    size ≠ 0 ∧ (capacity < size ∨ ∀ k ∈ multiplesFrom g.granularity.value.toNat size.toNat, 2 ^ 64 ≤ k)

theorem alignedSize_ok_iff {size capacity a : UInt64} : g.alignedSize size capacity = .ok a ↔
    1 ≤ size ∧ size ≤ capacity ∧ IsLeast (multiplesFrom g.grid size.toNat) a.toNat := by
  rw [isLeast_multiplesFrom_iff g.grid_pos]
  constructor
  · intro h
    obtain ⟨hpos, hle, haligned⟩ := alignedSize_eq_ok h
    exact ⟨UInt64.le_iff_toNat_le.mpr hpos, hle, haligned⟩
  · rintro ⟨hpos, hle, haligned⟩
    have hsize : size ≠ 0 := by
      rintro rfl
      exact absurd hpos (by decide)
    have hround : g.granularity.roundUp? size = some a := PowerOfTwo.roundUp?_some_iff.mpr haligned
    unfold alignedSize
    rw [if_neg hsize, if_neg (UInt64.not_lt.mpr hle), hround]

theorem alignedSize_zero_iff {size capacity : UInt64} :
    g.alignedSize size capacity = .error .zeroSize ↔ size = 0 := by
  unfold alignedSize
  by_cases hsize : size = 0
  · rw [if_pos hsize]
    exact ⟨fun _ => hsize, fun _ => rfl⟩
  rw [if_neg hsize]
  by_cases hlarge : capacity < size
  · rw [if_pos hlarge]
    exact ⟨nofun, fun h => absurd h hsize⟩
  rw [if_neg hlarge]
  cases g.granularity.roundUp? size <;> exact ⟨nofun, fun h => absurd h hsize⟩

theorem alignedSize_large_iff {size capacity : UInt64} :
    g.alignedSize size capacity = .error (.tooLarge size capacity) ↔
      size ≠ 0 ∧ (capacity < size ∨ ∀ k ∈ multiplesFrom g.grid size.toNat, 2 ^ 64 ≤ k) := by
  have hleast := isLeast_leastMultiple g.grid_pos size.toNat
  have hreach : (∀ k ∈ multiplesFrom g.grid size.toNat, 2 ^ 64 ≤ k) ↔ g.granularity.roundUp? size = none := by
    rw [PowerOfTwo.roundUp?_none_iff]
    exact ⟨fun h => h _ hleast.1, fun h k hk => Nat.le_trans h (hleast.2 hk)⟩
  rw [hreach]
  unfold alignedSize
  by_cases hsize : size = 0
  · rw [if_pos hsize]
    exact ⟨nofun, fun h => absurd hsize h.1⟩
  rw [if_neg hsize]
  by_cases hlarge : capacity < size
  · rw [if_pos hlarge]
    exact ⟨fun _ => ⟨hsize, Or.inl hlarge⟩, fun _ => rfl⟩
  rw [if_neg hlarge]
  cases hround : g.granularity.roundUp? size with
  | none => exact ⟨fun _ => ⟨hsize, Or.inr rfl⟩, fun _ => rfl⟩
  | some a => exact ⟨nofun, fun h => absurd (h.2.resolve_left hlarge) nofun⟩

theorem Exact.padded (hg : g.Exact) : g.Padded := by
  have hheader : IsLeast (multiplesFrom g.grid 24) g.headerSize.toNat :=
    (isLeast_multiplesFrom_iff g.grid_pos).mpr g.front_eq
  have hblock : IsLeast (multiplesFrom g.grid (max g.leastBlock.toNat 1)) g.minimumBlock.toNat :=
    (isLeast_multiplesFrom_iff g.grid_pos).mpr (least_eq hg)
  have hthreshold := toNat_splitThreshold hg
  have hheaderPos : 0 < g.headerSize.toNat := Nat.lt_of_lt_of_le (by decide) g.le_front
  have hblockPos : 0 < g.minimumBlock.toNat := least_pos hg
  refine ⟨g.granularity.exists_exponent, g.eight_le_grid, hheader, hblock, hthreshold, ?_,
    fun _ _ _ => alignedSize_ok_iff, fun _ _ => alignedSize_zero_iff, fun _ _ => alignedSize_large_iff⟩
  intro size hsize
  simp only [List.mem_cons, List.not_mem_nil, or_false] at hsize
  rcases hsize with rfl | rfl | rfl
  · exact ⟨hheaderPos, hheader.1.1⟩
  · exact ⟨hblockPos, hblock.1.1⟩
  · rw [hthreshold]
    exact ⟨Nat.add_pos_left hheaderPos _, Nat.dvd_add hheader.1.1 hblock.1.1⟩

/-- Masks round exactly: a word is a power of two if it is taken for one, its mask rounds, and the constants that
are made by such masks come out exact unless their exact sum is no word. -/
theorem masks_round_exactly (hg : g.Exact) :
    (∀ word p, PowerOfTwo.ofWord? word = some p ↔ p.value = word) ∧
      (∀ word, PowerOfTwo.ofWord? word ≠ none ↔ ∃ k < 64, word.toNat = 2 ^ k) ∧
      (∀ p : PowerOfTwo, p.Rounds) ∧ g.Padded := by
  refine ⟨fun _ _ => PowerOfTwo.ofWord?_some_iff, fun word => ?_, PowerOfTwo.rounds, hg.padded⟩
  rw [Option.ne_none_iff_exists']
  constructor
  · rintro ⟨p, hp⟩
    rw [← PowerOfTwo.ofWord?_some_iff.mp hp]
    exact p.exists_exponent
  · rintro ⟨k, -, hk⟩
    exact ⟨⟨word, k, hk⟩, PowerOfTwo.ofWord?_some_iff.mpr rfl⟩

theorem standard_rounds_exactly : standard.Exact ∧ standard.Padded :=
  ⟨standard_exact, (masks_round_exactly standard_exact).2.2.2⟩

end Geometry

end ArenaHeap
