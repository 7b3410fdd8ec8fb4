import ArenaHeap.Geometry
import Mathlib.Algebra.Group.Nat.Defs

/-!
# The geometry of blocks as arithmetic

The constants of a geometry are words. Here they are numbers:

* `Word.toNat_ofNat`, `Word.ofNat_le_iff` : words that stand for small numbers;
* `leastMultiple p n` : the least multiple of `p` that is not below `n`;
* `Geometry.grid`, `Geometry.front`, `Geometry.least` : the granularity, the bytes in front of a usable
  region, and the least size of a block that is split off;
* `Geometry.Exact` : the split threshold is below `2 ^ 64`, so that no constant wraps;
* `front_dvd`, `least_pos`, `toNat_splitThreshold` : what follows for the constants;
* `dvd_arenaSize`, `le_arenaSize` : an arena is on the grid, and holds a header and a least block;
* `need` : the size that serves a request (`alignedSize_eq_ok`, `alignedSize_of_le`, `alignedSize_serves`).
-/

namespace ArenaHeap

/-! ## Words as numbers -/

namespace Word

variable {a b : Nat}

theorem toNat_ofNat (ha : a < 2 ^ 64) : (UInt64.ofNat a).toNat = a :=
  UInt64.toNat_ofNat_of_lt' (by rw [UInt64.size]; exact ha)

theorem ofNat_inj (ha : a < 2 ^ 64) (hb : b < 2 ^ 64) (h : UInt64.ofNat a = .ofNat b) : a = b := by
  have hword := congrArg UInt64.toNat h
  rwa [toNat_ofNat ha, toNat_ofNat hb] at hword

theorem ofNat_le_iff (ha : a < 2 ^ 64) (hb : b < 2 ^ 64) : UInt64.ofNat a ≤ .ofNat b ↔ a ≤ b := by
  rw [UInt64.le_iff_toNat_le, toNat_ofNat ha, toNat_ofNat hb]

theorem ofNat_lt_iff (ha : a < 2 ^ 64) (hb : b < 2 ^ 64) : UInt64.ofNat a < .ofNat b ↔ a < b := by
  rw [UInt64.lt_iff_toNat_lt, toNat_ofNat ha, toNat_ofNat hb]

end Word

/-! ## Least multiples -/

/-- The least multiple of `p` that is not below `n`. -/
def leastMultiple (p n : Nat) : Nat := (n + (p - 1)) / p * p

theorem dvd_leastMultiple (p n : Nat) : p ∣ leastMultiple p n := Nat.dvd_mul_left p _

theorem le_leastMultiple {p : Nat} (hp : 0 < p) (n : Nat) : n ≤ leastMultiple p n := by
  have hdiv := Nat.div_add_mod (n + (p - 1)) p
  have hmod := Nat.mod_lt (n + (p - 1)) hp
  unfold leastMultiple
  rw [Nat.mul_comm]
  omega

theorem leastMultiple_le {p n m : Nat} (hp : 0 < p) (hdvd : p ∣ m) (hn : n ≤ m) :
    leastMultiple p n ≤ m := by
  obtain ⟨k, rfl⟩ := hdvd
  have hlt : (n + (p - 1)) / p < k + 1 := by
    rw [Nat.div_lt_iff_lt_mul hp, Nat.add_mul, Nat.mul_comm k p]
    omega
  unfold leastMultiple
  rw [Nat.mul_comm]
  exact Nat.mul_le_mul_left p (Nat.le_of_lt_succ hlt)

theorem leastMultiple_le_add (p n : Nat) : leastMultiple p n ≤ n + (p - 1) := Nat.div_mul_le_self _ p

/-! ## Constants -/

namespace Geometry

variable (g : Geometry)

/-- The unit of offsets and sizes, in bytes. -/
def grid : Nat := g.granularity.value.toNat

/-- The bytes in front of a usable region. -/
def front : Nat := g.headerSize.toNat

/-- The least size of a block that is split off. -/
def least : Nat := g.minimumBlock.toNat

/-- The padded header and the padded least block together are a word: no constant wraps. This is what
`roundUp` asks of its caller, who is to keep far from the last word. -/
def Exact : Prop :=
  leastMultiple g.grid 24 + leastMultiple g.grid (max g.leastBlock.toNat 1) < 2 ^ 64

instance : Decidable g.Exact := inferInstanceAs (Decidable (_ < _))

theorem standard_exact : standard.Exact := by decide

theorem eight_le_grid : 8 ≤ g.grid := by
  have hmax : g.granularity = if headerAlignment.value ≤ g.grain.value then g.grain else headerAlignment :=
    rfl
  unfold grid
  rw [hmax]
  split
  · exact UInt64.le_iff_toNat_le.mp ‹_›
  · exact Nat.le_refl 8

theorem grid_pos : 0 < g.grid := Nat.lt_of_lt_of_le (by decide) g.eight_le_grid

theorem grid_le : g.grid ≤ 2 ^ 63 := by
  obtain ⟨k, hk⟩ := g.granularity.isPower
  have hlt : 2 ^ k < 2 ^ 64 := hk ▸ g.granularity.value.toNat_lt
  have hk64 : k < 64 := (Nat.pow_lt_pow_iff_right (by decide)).mp hlt
  unfold grid
  rw [hk]
  exact Nat.pow_le_pow_right (by decide) (by omega)

theorem front_eq : g.front = leastMultiple g.grid 24 := by
  have hle := g.grid_le
  have hfit : 24 + (g.grid - 1) < 2 ^ 64 := by omega
  exact PowerOfTwo.toNat_roundUp _ hfit

theorem front_dvd : g.grid ∣ g.front := by
  rw [front_eq]
  exact dvd_leastMultiple _ _

theorem le_front : 24 ≤ g.front := by
  rw [front_eq]
  exact le_leastMultiple g.grid_pos 24

theorem grid_le_front : g.grid ≤ g.front :=
  Nat.le_of_dvd (Nat.lt_of_lt_of_le (by decide) g.le_front) g.front_dvd

variable {g}

theorem toNat_max_leastBlock : (max g.leastBlock 1).toNat = max g.leastBlock.toNat 1 := by
  have hmax : max g.leastBlock 1 = if g.leastBlock ≤ 1 then 1 else g.leastBlock := rfl
  have hle : g.leastBlock ≤ 1 ↔ g.leastBlock.toNat ≤ 1 := UInt64.le_iff_toNat_le
  rw [hmax, Nat.max_def]
  split
  · rw [if_pos (hle.mp ‹_›)]
    rfl
  · rw [if_neg (mt hle.mpr ‹_›)]

theorem Exact.fits (h : g.Exact) : (max g.leastBlock 1).toNat + (g.grid - 1) < 2 ^ 64 := by
  have hfront := g.grid_le_front
  have hmin := le_leastMultiple g.grid_pos (max g.leastBlock.toNat 1)
  rw [front_eq] at hfront
  rw [toNat_max_leastBlock]
  unfold Exact at h
  omega

theorem least_eq (h : g.Exact) : g.least = leastMultiple g.grid (max g.leastBlock.toNat 1) := by
  have hround := PowerOfTwo.toNat_roundUp g.granularity h.fits
  rw [toNat_max_leastBlock] at hround
  exact hround

theorem least_pos (h : g.Exact) : 0 < g.least := by
  rw [least_eq h]
  exact Nat.lt_of_lt_of_le (by omega) (le_leastMultiple g.grid_pos (max g.leastBlock.toNat 1))

theorem toNat_splitThreshold (h : g.Exact) : g.splitThreshold.toNat = g.front + g.least := by
  have hsum : g.front + g.least < 2 ^ 64 := by
    rw [front_eq, least_eq h]
    exact h
  exact (UInt64.toNat_add _ _).trans (Nat.mod_eq_of_lt hsum)

/-! ## Arenas -/

theorem dvd_arenaSize (g : Geometry) (capacity : UInt64) : g.grid ∣ (g.arenaSize capacity).toNat := by
  rw [arenaSize, PowerOfTwo.toNat_roundDown]
  exact Nat.dvd_mul_left _ _

theorem le_arenaSize (hg : g.Exact) {capacity : UInt64} (hroom : g.minimumCapacity ≤ g.arenaSize capacity) :
    g.front + g.least ≤ (g.arenaSize capacity).toNat := by
  rw [← toNat_splitThreshold hg]
  exact UInt64.le_iff_toNat_le.mp hroom

/-! ## Requests -/

/-- A request that is served is not empty and not above the capacity, and it is served by the least
multiple of the granularity that holds it. -/
theorem alignedSize_eq_ok {size capacity aligned : UInt64} (h : g.alignedSize size capacity = .ok aligned) :
    0 < size.toNat ∧ size ≤ capacity ∧ aligned.toNat = leastMultiple g.grid size.toNat := by
  unfold alignedSize at h
  split at h
  · cases h
  split at h
  · cases h
  split at h
  · rename_i hzero hle _ rounded hround
    obtain ⟨hfit, rfl⟩ := (PowerOfTwo.roundUp?_eq_some_iff _ _ _).mp hround
    cases h
    refine ⟨?_, UInt64.not_lt.mp hle, PowerOfTwo.toNat_roundUp _ hfit⟩
    exact Nat.pos_of_ne_zero fun hz => hzero (UInt64.toNat.inj hz)
  · cases h

variable (g) in
/-- The usable bytes that a request needs: the least multiple of the granularity that holds it. -/
def need (size : UInt64) : Nat := leastMultiple g.grid size.toNat

theorem need_lt {size capacity : UInt64} (hle : size ≤ capacity) (hcap : capacity.toNat < 2 ^ 63) :
    g.need size < 2 ^ 64 := by
  have hgrid := g.grid_le
  have hnat := UInt64.le_iff_toNat_le.mp hle
  have hround := leastMultiple_le_add g.grid size.toNat
  unfold need
  omega

theorem need_pos {size : UInt64} (hsize : size ≠ 0) : 0 < g.need size := by
  have hle := le_leastMultiple g.grid_pos size.toNat
  have hpos : 0 < size.toNat := Nat.pos_of_ne_zero fun hz => hsize (UInt64.toNat.inj hz)
  unfold need
  omega

/-- Every request that is not empty and not above the capacity of an arena is served. -/
theorem alignedSize_of_le {size capacity : UInt64} (hsize : size ≠ 0) (hle : size ≤ capacity)
    (hcap : capacity.toNat < 2 ^ 63) : g.alignedSize size capacity = .ok (.ofNat (g.need size)) := by
  have hgrid := g.grid_le
  have hnat := UInt64.le_iff_toNat_le.mp hle
  have hfit : size.toNat + (g.grid - 1) < 2 ^ 64 := by omega
  have hround : g.granularity.roundUp? size = some (g.granularity.roundUp size) :=
    (PowerOfTwo.roundUp?_eq_some_iff _ _ _).mpr ⟨hfit, rfl⟩
  have hword : g.granularity.roundUp size = .ofNat (g.need size) := by
    rw [show g.need size = (g.granularity.roundUp size).toNat from
      (PowerOfTwo.toNat_roundUp _ hfit).symm, UInt64.ofNat_toNat]
  unfold alignedSize
  rw [if_neg hsize, if_neg (UInt64.not_lt.mpr hle), hround, hword]

theorem alignedSize_serves {size capacity aligned : UInt64} (h : g.alignedSize size capacity = .ok aligned) :
    g.grid ∣ aligned.toNat ∧ 0 < aligned.toNat ∧ size.toNat ≤ aligned.toNat := by
  obtain ⟨hpos, -, hnat⟩ := alignedSize_eq_ok h
  have hle := le_leastMultiple g.grid_pos size.toNat
  rw [hnat]
  exact ⟨dvd_leastMultiple _ _, by omega, hle⟩

end Geometry

end ArenaHeap
