import ArenaHeap.Header
import Mathlib.Algebra.Group.Nat.Defs

/-!
# Cells and bytes

* `Memory.take_bytes`, `Memory.bytes_setBytes_inside` : the first of some bytes, and bytes of which some were
  written;
* `Word.toBytes_ofBytes` : at most eight bytes are those of their word;
* `Memory.get_of_word`, `Memory.get_of_header` : cells are determined by the word and by the header that lie
  in them.
-/

namespace ArenaHeap

namespace Memory

theorem take_bytes (m : Memory) (i : Nat) {k n : Nat} (hk : k ≤ n) : (m.bytes i n).take k = m.bytes i k := by
  unfold bytes
  rw [← List.map_take, List.take_range, Nat.min_eq_left hk]

/-- What was written is read inside of what was there. -/
theorem bytes_setBytes_inside (m : Memory) (i place : Nat) {bs : List UInt8} {n : Nat}
    (hn : place + bs.length ≤ n) : (m.setBytes (i + place) bs).bytes i n =
      (m.bytes i n).take place ++ (bs ++ (m.bytes i n).drop (place + bs.length)) := by
  apply List.ext_getElem?
  intro k
  have hplace : ((m.bytes i n).take place).length = place := by
    rw [List.length_take, length_bytes, Nat.min_eq_left (by omega)]
  rw [List.getElem?_append, hplace, List.getElem?_append, List.getElem?_drop]
  by_cases hk : k < n
  · rw [getElem?_bytes _ _ _ _ hk, get_setBytes]
    by_cases hbefore : k < place
    · rw [if_neg (by omega), if_pos hbefore, List.getElem?_take_of_lt hbefore, getElem?_bytes _ _ _ _ hk]
    · rw [if_pos (by omega), if_neg hbefore, show i + k - (i + place) = k - place by omega]
      split
      · rw [List.getElem?_eq_getElem ‹_›]
        rfl
      · rw [List.getElem?_eq_none (by omega), show place + bs.length + (k - place - bs.length) = k by omega,
          getElem?_bytes _ _ _ _ hk]
        rfl
  · rw [List.getElem?_eq_none (by simp; omega), if_neg (by omega), if_neg (by omega),
      List.getElem?_eq_none (by simp; omega)]

end Memory

namespace Word

theorem toNat_ofBytes_cons {b : UInt8} {bs : List UInt8} (h : bs.length < 8)
    (hlt : (ofBytes bs).toNat < 2 ^ (8 * bs.length)) :
    (ofBytes (b :: bs)).toNat = b.toNat + 256 * (ofBytes bs).toNat := by
  have hbyte := b.toNat_lt
  have hpow : 2 ^ (8 * bs.length) ≤ 2 ^ 56 := Nat.pow_le_pow_right (by decide) (by omega)
  have hshift : (ofBytes bs <<< 8).toNat = 256 * (ofBytes bs).toNat := by
    rw [UInt64.toNat_shiftLeft]
    simp only [UInt64.reduceToNat, Nat.reduceMod, Nat.shiftLeft_eq]
    omega
  rw [ofBytes, UInt64.toNat_add, hshift, UInt8.toNat_toUInt64]
  omega

theorem toNat_ofBytes_lt {bs : List UInt8} (h : bs.length ≤ 8) :
    (ofBytes bs).toNat < 2 ^ (8 * bs.length) := by
  induction bs with
  | nil => decide
  | cons b bs ih =>
    rw [List.length_cons] at h ⊢
    have hlt := ih (by omega)
    have hbyte := b.toNat_lt
    have hsucc : 2 ^ (8 * (bs.length + 1)) = 256 * 2 ^ (8 * bs.length) := by
      rw [Nat.mul_succ, Nat.pow_add, Nat.mul_comm]
    rw [toNat_ofBytes_cons (by omega) hlt, hsucc]
    omega

theorem toBytes_ofBytes {bs : List UInt8} (h : bs.length ≤ 8) : toBytes bs.length (ofBytes bs) = bs := by
  induction bs with
  | nil => rfl
  | cons b bs ih =>
    rw [List.length_cons] at h ⊢
    have hnat := @toNat_ofBytes_cons b bs (by omega) (toNat_ofBytes_lt (by omega))
    have hbyte := b.toNat_lt
    have hlow : (ofBytes (b :: bs)).toUInt8 = b := by
      rw [← UInt8.toNat_inj, UInt64.toNat_toUInt8, hnat]
      omega
    have hhigh : ofBytes (b :: bs) >>> 8 = ofBytes bs := by
      rw [← UInt64.toNat_inj, UInt64.toNat_shiftRight, hnat]
      simp only [UInt64.reduceToNat, Nat.reduceMod, Nat.shiftRight_eq_div_pow]
      omega
    rw [toBytes, hlow, hhigh, ih (by omega)]

end Word

namespace Memory

variable {m m' : Memory}

theorem get_of_word {i : Nat} (h : m'.word i = m.word i) {k : Nat} (hk : k < 8) :
    m'.get (i + k) = m.get (i + k) := by
  have hbytes := congrArg (Word.toBytes 8) h
  have hleft := @Word.toBytes_ofBytes (m'.bytes i 8) (by simp)
  have hright := @Word.toBytes_ofBytes (m.bytes i 8) (by simp)
  rw [length_bytes] at hleft hright
  rw [word, word, hleft, hright] at hbytes
  have hcell := congrArg (fun bs : List UInt8 => bs[k]?) hbytes
  simp only [getElem?_bytes _ _ _ _ hk] at hcell
  exact Option.some.inj hcell

/-- A header determines its 24 cells. -/
theorem get_of_header {offset : UInt64} (h : m'.header offset = m.header offset) {k : Nat}
    (hk : k < 24) : m'.get (offset.toNat + k) = m.get (offset.toNat + k) := by
  obtain ⟨hsize, hnext, htag⟩ := Header.mk.inj h
  by_cases hfirst : k < 8
  · exact get_of_word hsize hfirst
  · by_cases hsecond : k < 16
    · have hcell := get_of_word hnext (show k - 8 < 8 by omega)
      rwa [Nat.add_assoc, Nat.add_sub_cancel' (by omega)] at hcell
    · have hcell := get_of_word htag (show k - 16 < 8 by omega)
      rwa [Nat.add_assoc, Nat.add_sub_cancel' (by omega)] at hcell

end Memory

end ArenaHeap
