import Std.Data.TreeMap

/-!
# Byte memory

A memory is total: each of its cells holds a byte, and a cell that nobody has written holds what its
`background` says. Words lie in it with their least significant byte first.

* `Memory.get`, `Memory.set` : one cell (`get_set`);
* `Memory.bytes`, `Memory.setBytes`, `Memory.copy` : a range of cells (`get_setBytes`, `get_copy`);
* `Word.toBytes`, `Word.ofBytes` : a word and its bytes (`Word.ofBytes_toBytes`);
* `Memory.word`, `Memory.setWord` : a word in eight cells (`word_setWord`, `word_congr`).
-/

namespace ArenaHeap

/-- The bytes behind an arena, by offset. -/
structure Memory where
  /-- What a cell holds until it is written. -/
  background : Nat → UInt8
  /-- The cells that were written. -/
  written : Std.TreeMap Nat UInt8

namespace Memory

/-- A memory that nobody has written yet. -/
def blank (background : Nat → UInt8) : Memory := ⟨background, ∅⟩

/-! ## Cells -/

/-- The byte in cell `i`. -/
def get (m : Memory) (i : Nat) : UInt8 := m.written.getD i (m.background i)

/-- The memory with byte `b` in cell `i`; a cell that holds `b` already is left alone. -/
def set (m : Memory) (i : Nat) (b : UInt8) : Memory :=
  if m.get i = b then m else { m with written := m.written.insert i b }

theorem get_set (m : Memory) (i j : Nat) (b : UInt8) :
    (m.set i b).get j = if i = j then b else m.get j := by
  unfold set
  split
  · split <;> simp_all
  · simp [get, Std.TreeMap.getD_insert]

theorem get_blank (background : Nat → UInt8) (i : Nat) : (blank background).get i = background i := by
  simp [get, blank]

/-! ## Ranges -/

/-- The `n` bytes from cell `i` on. -/
def bytes (m : Memory) (i n : Nat) : List UInt8 := (List.range n).map fun k => m.get (i + k)

/-- The memory with `bs` written from cell `i` on. -/
def setBytes (m : Memory) (i : Nat) : List UInt8 → Memory
  | [] => m
  | b :: bs => (m.set i b).setBytes (i + 1) bs

/-- The memory `m` with `n` bytes, those of `before` from cell `source` on, written from cell
`target` on. -/
def copyFrom (before : Memory) (source target : Nat) : Nat → Memory → Memory
  | 0, m => m
  | n + 1, m => copyFrom before (source + 1) (target + 1) n (m.set target (before.get source))

/-- The memory with its own `n` bytes from cell `source` on written from cell `target` on as well. -/
def copy (m : Memory) (source target n : Nat) : Memory := copyFrom m source target n m

@[simp] theorem length_bytes (m : Memory) (i n : Nat) : (m.bytes i n).length = n := by
  simp [bytes]

theorem getElem?_bytes (m : Memory) (i n k : Nat) (h : k < n) :
    (m.bytes i n)[k]? = some (m.get (i + k)) := by
  simp [bytes, h]

theorem get_setBytes (m : Memory) (i j : Nat) (bs : List UInt8) :
    (m.setBytes i bs).get j = if i ≤ j then (bs[j - i]?).getD (m.get j) else m.get j := by
  induction bs generalizing m i with
  | nil => simp [setBytes]
  | cons b bs ih =>
    rw [setBytes, ih, get_set]
    by_cases h : i = j
    · subst h; rw [if_neg (by omega), if_pos rfl]; simp
    · by_cases hlt : i ≤ j
      · have hs : i + 1 ≤ j := by omega
        rw [if_pos hs, if_pos hlt, if_neg h, show j - i = (j - (i + 1)) + 1 by omega,
          List.getElem?_cons_succ]
      · rw [if_neg (by omega), if_neg hlt, if_neg h]

theorem bytes_setBytes (m : Memory) (i : Nat) (bs : List UInt8) :
    (m.setBytes i bs).bytes i bs.length = bs := by
  apply List.ext_getElem?
  intro k
  by_cases hk : k < bs.length
  · rw [getElem?_bytes _ _ _ _ hk, get_setBytes, if_pos (by omega),
      show i + k - i = k by omega, List.getElem?_eq_getElem hk]
    rfl
  · rw [List.getElem?_eq_none (by simp; omega), List.getElem?_eq_none (by omega)]

theorem get_copyFrom (before m : Memory) (source target n j : Nat) :
    (copyFrom before source target n m).get j =
      if target ≤ j ∧ j < target + n then before.get (source + (j - target)) else m.get j := by
  induction n generalizing m source target with
  | zero => rw [copyFrom, if_neg (by omega)]
  | succ n ih =>
    rw [copyFrom, ih, get_set]
    by_cases h : target = j
    · subst h; rw [if_neg (by omega), if_pos rfl, if_pos (by omega)]; simp
    · by_cases hin : target + 1 ≤ j ∧ j < target + 1 + n
      · rw [if_pos hin, if_pos (by omega),
          show source + 1 + (j - (target + 1)) = source + (j - target) by omega]
      · rw [if_neg hin, if_neg h, if_neg (by omega)]

/-- A copy reads the memory as it was before. -/
theorem get_copy (m : Memory) (source target n j : Nat) :
    (m.copy source target n).get j =
      if target ≤ j ∧ j < target + n then m.get (source + (j - target)) else m.get j :=
  get_copyFrom m m source target n j

theorem bytes_congr {m m' : Memory} {i n : Nat} (h : ∀ k < n, m'.get (i + k) = m.get (i + k)) :
    m'.bytes i n = m.bytes i n :=
  List.map_congr_left fun k hk => h k (List.mem_range.mp hk)

end Memory

/-! ## Words -/

namespace Word

/-- The `n` low bytes of a word, the least significant first. -/
def toBytes : Nat → UInt64 → List UInt8
  | 0, _ => []
  | n + 1, w => w.toUInt8 :: toBytes n (w >>> 8)

/-- The word with the given bytes, the least significant first. -/
def ofBytes : List UInt8 → UInt64
  | [] => 0
  | b :: bs => b.toUInt64 + (ofBytes bs <<< 8)

@[simp] theorem length_toBytes (n : Nat) (w : UInt64) : (toBytes n w).length = n := by
  induction n generalizing w with
  | zero => rfl
  | succ n ih => simp [toBytes, ih]

theorem toNat_ofBytes_toBytes (n : Nat) (hn : n ≤ 8) (w : UInt64) :
    (ofBytes (toBytes n w)).toNat = w.toNat % 1 <<< (8 * n) := by
  induction n generalizing w with
  | zero => simp [toBytes, ofBytes, Nat.mod_one]
  | succ n ih =>
    have hlow : (w >>> 8).toNat = w.toNat / 256 := by
      simp [UInt64.toNat_shiftRight, Nat.shiftRight_eq_div_pow]
    have hbound : w.toNat / 256 % 1 <<< (8 * n) < 1 <<< (8 * n) :=
      Nat.mod_lt _ (Nat.one_shiftLeft _ ▸ Nat.two_pow_pos _)
    have hsucc : 1 <<< (8 * (n + 1)) = 256 * 1 <<< (8 * n) := by
      rw [Nat.mul_succ, Nat.shiftLeft_add, Nat.shiftLeft_eq _ 8, Nat.mul_comm]
    have hpow : 1 <<< (8 * (n + 1)) ≤ UInt64.size := by
      rw [Nat.one_shiftLeft]
      exact Nat.pow_le_pow_right (by decide) (show 8 * (n + 1) ≤ 64 by omega)
    have hbyte := Nat.mod_lt w.toNat (show 0 < 256 by decide)
    rw [toBytes, ofBytes, UInt64.toNat_add, UInt64.toNat_shiftLeft, ih (by omega), hlow, hsucc,
      Nat.mod_mul]
    simp only [UInt8.toNat_toUInt64, UInt64.toNat_toUInt8, UInt64.reduceToNat, Nat.reduceMod,
      Nat.shiftLeft_eq _ 8]
    rw [UInt64.size] at hpow
    rw [Nat.mod_eq_of_lt (a := w.toNat / 256 % 1 <<< (8 * n) * 2 ^ 8) (by omega),
      Nat.mod_eq_of_lt (by omega)]
    omega

theorem ofBytes_toBytes (w : UInt64) : ofBytes (toBytes 8 w) = w := by
  apply UInt64.toNat.inj
  rw [toNat_ofBytes_toBytes 8 (by decide)]
  exact Nat.mod_eq_of_lt w.toNat_lt

end Word

namespace Memory

/-- The word in the eight cells from `i` on. -/
def word (m : Memory) (i : Nat) : UInt64 := Word.ofBytes (m.bytes i 8)

/-- The memory with word `w` in the eight cells from `i` on. -/
def setWord (m : Memory) (i : Nat) (w : UInt64) : Memory := m.setBytes i (Word.toBytes 8 w)

theorem get_setWord_of_ne {m : Memory} {i j : Nat} {w : UInt64} (h : j < i ∨ i + 8 ≤ j) :
    (m.setWord i w).get j = m.get j := by
  rw [setWord, get_setBytes]
  split
  · rw [List.getElem?_eq_none (by simp; omega), Option.getD_none]
  · rfl

theorem word_setWord (m : Memory) (i : Nat) (w : UInt64) : (m.setWord i w).word i = w := by
  have h : (m.setWord i w).bytes i 8 = Word.toBytes 8 w := by
    simpa [setWord] using m.bytes_setBytes i (Word.toBytes 8 w)
  rw [word, h, Word.ofBytes_toBytes]

theorem word_congr {m m' : Memory} {i : Nat} (h : ∀ k < 8, m'.get (i + k) = m.get (i + k)) :
    m'.word i = m.word i := by
  rw [word, word, bytes_congr h]

theorem word_setWord_of_disjoint {m : Memory} {i j : Nat} {w : UInt64}
    (h : j + 8 ≤ i ∨ i + 8 ≤ j) : (m.setWord i w).word j = m.word j :=
  word_congr fun k hk => get_setWord_of_ne (by omega)

end Memory

end ArenaHeap
