import ArenaHeap.Proofs.Geometry

/-!
# Arithmetic that refuses to wrap

* `Word.sum?`, `Word.difference?` : the sum of two words if it does not exceed a limit, and the difference if it is not
  negative; both are exact (`sum?_eq_some_iff`, `difference?_eq_some_iff`);
* `PowerOfTwo.mask?`, `roundUpChecked?`, `roundDown?`, `rem?` : masks with such arithmetic;
* `Geometry.headerSize?` and the other constants, and `Geometry.alignedSize?`, which has nothing to say where rounding
  leaves the words;
* `Geometry.Unwrapped` : the constants of a geometry come out as they are;
* `Exact.unwrapped`, `alignedSize?_eq` : so they do, and so do the sizes of requests.
-/

namespace ArenaHeap

namespace Word

/-- The last word. -/
def last : UInt64 := 0xFFFFFFFFFFFFFFFF

/-- The sum of two words, unless it exceeds the limit. -/
def sum? (limit a b : UInt64) : Option UInt64 :=
  if a.toNat + b.toNat ≤ limit.toNat then some (a + b) else none

/-- The difference of two words, unless it is negative. -/
def difference? (a b : UInt64) : Option UInt64 := if b ≤ a then some (a - b) else none

theorem toNat_last : last.toNat = 2 ^ 64 - 1 := rfl

theorem toNat_sum {limit a b : UInt64} (h : a.toNat + b.toNat ≤ limit.toNat) :
    (a + b).toNat = a.toNat + b.toNat := by
  have hlimit := limit.toNat_lt
  rw [UInt64.toNat_add, Nat.mod_eq_of_lt (by omega)]

theorem sum?_eq {limit a b : UInt64} (h : a.toNat + b.toNat ≤ limit.toNat) : sum? limit a b = some (a + b) := if_pos h

theorem difference?_eq {a b : UInt64} (h : b ≤ a) : difference? a b = some (a - b) := if_pos h

/-- A sum is exact and within its limit. -/
theorem sum?_eq_some_iff {limit a b c : UInt64} :
    sum? limit a b = some c ↔ c.toNat = a.toNat + b.toNat ∧ c ≤ limit := by
  rw [UInt64.le_iff_toNat_le]
  constructor
  · intro h
    by_cases hle : a.toNat + b.toNat ≤ limit.toNat
    · obtain rfl := Option.some.inj ((sum?_eq hle).symm.trans h)
      rw [toNat_sum hle]
      exact ⟨rfl, hle⟩
    · rw [sum?, if_neg hle] at h
      cases h
  · rintro ⟨hc, hle⟩
    rw [hc] at hle
    rw [sum?_eq hle, UInt64.toNat.inj ((toNat_sum hle).trans hc.symm)]

example : sum? 112 32 80 = some 112 ∧ sum? 112 32 96 = none ∧ sum? last last 1 = none := by decide

/-- A difference is exact. -/
theorem difference?_eq_some_iff {a b c : UInt64} : difference? a b = some c ↔ c.toNat + b.toNat = a.toNat := by
  constructor
  · intro h
    by_cases hle : b ≤ a
    · obtain rfl := Option.some.inj ((difference?_eq hle).symm.trans h)
      rw [UInt64.toNat_sub_of_le _ _ hle, Nat.sub_add_cancel (UInt64.le_iff_toNat_le.mp hle)]
    · rw [difference?, if_neg hle] at h
      cases h
  · intro h
    have hle : b ≤ a := UInt64.le_iff_toNat_le.mpr (h ▸ Nat.le_add_left _ _)
    rw [difference?_eq hle, Option.some.injEq]
    apply UInt64.toNat.inj
    rw [UInt64.toNat_sub_of_le _ _ hle, ← h, Nat.add_sub_cancel]

end Word

/-! ## Masks -/

namespace PowerOfTwo

variable (p : PowerOfTwo) (n : UInt64)

/-- The bits below the power. -/
def mask? : Option UInt64 := Word.difference? p.value 1

/-- The least multiple that is not below `n`. -/
def roundUpChecked? : Option UInt64 := do
  let mask ← p.mask?
  let sum ← Word.sum? Word.last n mask
  some (sum &&& ~~~mask)

/-- The greatest multiple that is not above `n`. -/
def roundDown? : Option UInt64 := do
  let mask ← p.mask?
  some (n &&& ~~~mask)

/-- What is left of `n` above its greatest multiple. -/
def rem? : Option UInt64 := do
  let mask ← p.mask?
  some (n &&& mask)

variable {n}

theorem mask?_eq : p.mask? = some p.mask :=
  Word.difference?_eq (UInt64.le_iff_toNat_le.mpr (Nat.pos_of_isPowerOfTwo p.isPower))

theorem roundUpChecked?_eq (h : n.toNat + (p.value.toNat - 1) < 2 ^ 64) : p.roundUpChecked? n = some (p.roundUp n) := by
  have hsum : n.toNat + p.mask.toNat ≤ Word.last.toNat := by
    rw [toNat_mask, Word.toNat_last]
    omega
  unfold roundUpChecked?
  simp only [mask?_eq, Word.sum?_eq hsum, Option.bind_eq_bind, Option.bind_some]
  rfl

theorem roundDown?_eq (n : UInt64) : p.roundDown? n = some (p.roundDown n) := by
  unfold roundDown?
  simp only [mask?_eq, Option.bind_eq_bind, Option.bind_some]
  rfl

theorem rem?_eq (n : UInt64) : p.rem? n = some (p.rem n) := by
  unfold rem?
  simp only [mask?_eq, Option.bind_eq_bind, Option.bind_some]
  rfl

end PowerOfTwo

/-! ## Constants -/

namespace Geometry

variable (g : Geometry)

/-- The bytes that the three words of a header take, padded to the granularity. -/
def headerSize? : Option UInt64 := g.granularity.roundUpChecked? 24

/-- The least usable size of a block, padded to the granularity. -/
def minimumBlock? : Option UInt64 := g.granularity.roundUpChecked? (max g.leastBlock 1)

/-- The surplus that makes a block of its own. -/
def splitThreshold? : Option UInt64 := do
  let header ← g.headerSize?
  let block ← g.minimumBlock?
  Word.sum? Word.last header block

/-- The usable bytes that serve a request. Where no word is large enough, there is no answer. -/
def alignedSize? (size capacity : UInt64) : Option (Except Fault UInt64) :=
  if size = 0 then some (.error .zeroSize)
  else if capacity < size then some (.error (.tooLarge size capacity))
  else (g.granularity.roundUpChecked? size).map .ok

/-- The constants come out as they are of arithmetic that refuses to wrap. -/
structure Unwrapped (g : Geometry) : Prop where
  header : g.headerSize? = some g.headerSize
  block : g.minimumBlock? = some g.minimumBlock
  threshold : g.splitThreshold? = some g.splitThreshold
  arena : ∀ capacity, g.granularity.roundDown? capacity = some (g.arenaSize capacity)
  grain : ∀ n, g.granularity.rem? n = some (g.granularity.rem n)

variable {g}

theorem Exact.unwrapped (hg : g.Exact) : g.Unwrapped := by
  have hgrid := g.grid_le
  have hheader : g.headerSize? = some g.headerSize :=
    g.granularity.roundUpChecked?_eq (show 24 + (g.grid - 1) < 2 ^ 64 by omega)
  have hblock : g.minimumBlock? = some g.minimumBlock := g.granularity.roundUpChecked?_eq hg.fits
  have hthreshold : g.headerSize.toNat + g.minimumBlock.toNat ≤ Word.last.toNat := by
    rw [Word.toNat_last]
    exact Nat.le_pred_of_lt (toNat_splitThreshold hg ▸ g.splitThreshold.toNat_lt)
  refine ⟨hheader, hblock, ?_, fun _ => g.granularity.roundDown?_eq _, g.granularity.rem?_eq⟩
  unfold splitThreshold?
  simp only [hheader, hblock, Option.bind_eq_bind, Option.bind_some]
  exact Word.sum?_eq hthreshold

theorem headerSize_le (hg : g.Exact) : g.headerSize ≤ g.splitThreshold := by
  rw [UInt64.le_iff_toNat_le, toNat_splitThreshold hg]
  exact Nat.le_add_right _ _

/-- Rounding a request never leaves the words. -/
theorem alignedSize?_eq {size capacity : UInt64} (hcap : capacity.toNat < 2 ^ 63) :
    g.alignedSize? size capacity = some (g.alignedSize size capacity) := by
  unfold alignedSize?
  by_cases hsize : size = 0
  · rw [if_pos hsize, alignedSize, if_pos hsize]
  rw [if_neg hsize]
  by_cases hlarge : capacity < size
  · rw [if_pos hlarge, alignedSize, if_neg hsize, if_pos hlarge]
  · have hle := UInt64.not_lt.mp hlarge
    have hnat := UInt64.le_iff_toNat_le.mp hle
    have hgrid := g.grid_le
    have hfit : size.toNat + (g.grid - 1) < 2 ^ 64 := by omega
    have hround : g.granularity.roundUp? size = some (g.granularity.roundUp size) :=
      (PowerOfTwo.roundUp?_eq_some_iff _ _ _).mpr ⟨hfit, rfl⟩
    rw [if_neg hlarge, g.granularity.roundUpChecked?_eq hfit, alignedSize, if_neg hsize, if_neg hlarge, hround,
      Option.map_some]

/-- A request that an arena could hold is served by a size that it could hold. -/
theorem alignedSize_le {size capacity : UInt64} (hsize : size ≠ 0) (hle : size ≤ capacity)
    (hcap : capacity.toNat < 2 ^ 63) (hgrid : g.grid ∣ capacity.toNat) :
    ∃ aligned, g.alignedSize size capacity = .ok aligned ∧ aligned ≤ capacity := by
  refine ⟨_, alignedSize_of_le hsize hle hcap, ?_⟩
  rw [UInt64.le_iff_toNat_le, Word.toNat_ofNat (need_lt hle hcap)]
  exact leastMultiple_le g.grid_pos hgrid (UInt64.le_iff_toNat_le.mp hle)

end Geometry

end ArenaHeap
