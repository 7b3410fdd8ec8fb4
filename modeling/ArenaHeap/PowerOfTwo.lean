/-!
# Powers of two among the 64-bit words

Rounding to a multiple of a power of two needs only its mask, the word of the bits below it.

* `PowerOfTwo` : a word that is a power of two; `PowerOfTwo.ofWord?` tests a word;
* `mask`, `rem` : the bits below the power, and what they keep of a word;
* `roundDown` : the greatest multiple that is not above a word;
* `roundUp?` : the least multiple that is not below a word, if a word can hold it;
* `roundUp` : the same sum without the check, for words far from the last one;
* `toNat_rem`, `toNat_roundDown`, `toNat_roundUp` : masking is division by the power;
  `roundUp?_eq_none_iff` says when the least multiple is out of reach.
-/

namespace ArenaHeap

/-- A 64-bit word that is a power of two. -/
structure PowerOfTwo where
  value : UInt64
  isPower : value.toNat.isPowerOfTwo
deriving DecidableEq

namespace PowerOfTwo

/-- The word as a power of two, if it is one. -/
def ofWord? (word : UInt64) : Option PowerOfTwo :=
  if isPower : word.toNat.isPowerOfTwo then some ⟨word, isPower⟩ else none

instance : Ord PowerOfTwo := ⟨fun p q => compare p.value q.value⟩

instance : Max PowerOfTwo := ⟨fun p q => if q.value ≤ p.value then p else q⟩

/-- The bits below the power. -/
def mask (p : PowerOfTwo) : UInt64 := p.value - 1

/-- What is left of `n` above its greatest multiple of `p`. -/
def rem (p : PowerOfTwo) (n : UInt64) : UInt64 := n &&& p.mask

/-- The greatest multiple of `p` that is not above `n`. -/
def roundDown (p : PowerOfTwo) (n : UInt64) : UInt64 := n &&& ~~~p.mask

/-- The least multiple of `p` that is not below `n`, provided that `n` is far from the last word:
the sum wraps where `roundUp?` refuses. -/
def roundUp (p : PowerOfTwo) (n : UInt64) : UInt64 := (n + p.mask) &&& ~~~p.mask

/-- The least multiple of `p` that is not below `n`, or nothing if it is no 64-bit word. -/
def roundUp? (p : PowerOfTwo) (n : UInt64) : Option UInt64 :=
  if n + p.mask < n then none else some (p.roundUp n)

/-! ## Rounding as arithmetic -/

theorem toNat_mask (p : PowerOfTwo) : p.mask.toNat = p.value.toNat - 1 := by
  have hpos : 0 < p.value.toNat := Nat.pos_of_isPowerOfTwo p.isPower
  have hone : (1 : UInt64) ≤ p.value := UInt64.le_iff_toNat_le.mpr hpos
  rw [mask, UInt64.toNat_sub_of_le _ _ hone]
  rfl

theorem toNat_rem (p : PowerOfTwo) (n : UInt64) : (p.rem n).toNat = n.toNat % p.value.toNat := by
  obtain ⟨k, hk⟩ := p.isPower
  rw [rem, UInt64.toNat_and, toNat_mask, hk, Nat.and_two_pow_sub_one_eq_mod]

theorem toNat_roundDown (p : PowerOfTwo) (n : UInt64) :
    (p.roundDown n).toNat = n.toNat / p.value.toNat * p.value.toNat := by
  obtain ⟨k, hk⟩ := p.isPower
  have hp := p.value.toNat_lt
  have hn := n.toNat_lt
  have hmask : (~~~p.mask).toNat = 2 ^ 64 - (2 ^ k - 1 + 1) := by
    rw [UInt64.toNat_not, toNat_mask, hk, UInt64.size]; omega
  rw [roundDown, UInt64.toNat_and, hmask, hk]
  apply Nat.eq_of_testBit_eq
  intro i
  rw [Nat.testBit_and, Nat.testBit_two_pow_sub_succ (by omega), Nat.testBit_two_pow_sub_one,
    ← Nat.shiftRight_eq_div_pow, ← Nat.shiftLeft_eq, Nat.testBit_shiftLeft, Nat.testBit_shiftRight]
  by_cases hk' : i < k
  · simp [hk', show ¬ k ≤ i by omega]
  · by_cases hi : i < 64
    · simp [hk', hi, show k ≤ i by omega]
    · have : n.toNat.testBit i = false :=
        Nat.testBit_lt_two_pow (Nat.lt_of_lt_of_le hn (Nat.pow_le_pow_right (by decide) (by omega)))
      simp [this, show k + (i - k) = i by omega]

theorem toNat_add_mask (p : PowerOfTwo) {n : UInt64} (h : n.toNat + (p.value.toNat - 1) < UInt64.size) :
    (n + p.mask).toNat = n.toNat + (p.value.toNat - 1) := by
  rw [UInt64.toNat_add, toNat_mask, Nat.mod_eq_of_lt h]

theorem roundUp?_eq_none_iff (p : PowerOfTwo) (n : UInt64) :
    p.roundUp? n = none ↔ UInt64.size ≤ n.toNat + (p.value.toNat - 1) := by
  have hp := p.value.toNat_lt
  have hn := n.toNat_lt
  have hsum : (n + p.mask).toNat = (n.toNat + (p.value.toNat - 1)) % UInt64.size := by
    rw [UInt64.toNat_add, toNat_mask]
  have hiff : n + p.mask < n ↔ UInt64.size ≤ n.toNat + (p.value.toNat - 1) := by
    rw [UInt64.lt_iff_toNat_lt, hsum, UInt64.size]; omega
  rw [← hiff, roundUp?]
  split
  · exact ⟨fun _ => ‹_›, fun _ => rfl⟩
  · exact ⟨nofun, fun h => absurd h ‹_›⟩

theorem toNat_roundUp (p : PowerOfTwo) {n : UInt64} (h : n.toNat + (p.value.toNat - 1) < UInt64.size) :
    (p.roundUp n).toNat =
      (n.toNat + (p.value.toNat - 1)) / p.value.toNat * p.value.toNat := by
  rw [show p.roundUp n = p.roundDown (n + p.mask) from rfl, toNat_roundDown, toNat_add_mask p h]

theorem roundUp?_eq_some_iff (p : PowerOfTwo) (n m : UInt64) :
    p.roundUp? n = some m ↔ n.toNat + (p.value.toNat - 1) < UInt64.size ∧ m = p.roundUp n := by
  have hnone := p.roundUp?_eq_none_iff n
  by_cases hover : n + p.mask < n
  · rw [roundUp?, if_pos hover] at hnone ⊢
    have hlarge := hnone.mp rfl
    exact ⟨nofun, fun h => by omega⟩
  · rw [roundUp?, if_neg hover] at hnone ⊢
    have hfits : ¬ UInt64.size ≤ n.toNat + (p.value.toNat - 1) := fun h => by cases hnone.mpr h
    exact ⟨fun h => ⟨by omega, (Option.some.inj h).symm⟩, fun h => congrArg some h.2.symm⟩

end PowerOfTwo

end ArenaHeap
