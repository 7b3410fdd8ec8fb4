import ArenaHeap.NodeList.Text
import Mathlib.Data.List.Basic

/-!
# What a text says

* `ListText.row` : the decimals of some values in a row, between brackets;
* `ListText.read` : the values that a text stands for, if it is the text of a list;
* `decimal_eq` : a value is written as its number is;
* `display_eq`, `debug_eq_display` : both writers put the decimals in a row;
* `read_display` : a text is read back as the values it was made of;
* `NodeList.texts_lose_nothing` : so lists, and parts of lists, have one text if and only if they hold the same values.
-/

namespace ArenaHeap

namespace ListText

/-- The decimals of some values, with a comma and a blank between them, in brackets. -/
def row (values : List Int32) : String :=
  "[" ++ ", ".intercalate (values.map fun value => toString value.toInt) ++ "]"

/-! ## Reading -/

/-- The number of a row of digits, which is neither empty nor has anything else in it. -/
def magnitude? (digits : List Char) : Option Int :=
  if !digits.isEmpty && digits.all Char.isDigit then some (Nat.ofDigitChars 10 digits 0) else none

/-- The value of a number, if it has one. -/
def fit? (number : Int) : Option Int32 :=
  if (Int32.ofInt number).toInt = number then some (.ofInt number) else none

/-- The value that a decimal stands for. -/
def value? : List Char → Option Int32
  | '-' :: digits => (magnitude? digits).bind fun number => fit? (-number)
  | digits => (magnitude? digits).bind fit?

/-- The value of an entry, which may stand behind blanks. -/
def entry? (entry : List Char) : Option Int32 := value? (entry.dropWhile (· == ' '))

/-- The values that a text stands for: nothing at all between brackets, or entries with commas between them. -/
def read (text : String) : Option (List Int32) :=
  match text.toList with
  | '[' :: rest =>
    if rest.getLast? ≠ some ']' then none
    else if rest.dropLast = [] then some []
    else (rest.dropLast.splitOn ',').mapM entry?
  | _ => none

/-! ## Decimals -/

variable {value : Int32}

theorem neg_iff : value < 0 ↔ value.toInt < 0 := Int32.lt_iff_toInt_lt

theorem decimal_eq (value : Int32) : decimal value = toString value.toInt := by
  unfold decimal
  rw [Int.toString_eq_repr, Int.repr_eq_if]
  by_cases hneg : value.toInt < 0
  · rw [if_pos (neg_iff.mpr hneg), if_neg (Int.not_le.mpr hneg), Nat.repr_eq_ofList_toDigits,
      show value.toInt.natAbs = (-value.toInt).toNat by omega]
  · rw [if_neg (mt neg_iff.mp hneg), if_pos (Int.not_lt.mp hneg), Nat.repr_eq_ofList_toDigits,
      show value.toInt.natAbs = value.toInt.toNat by omega]

/-- The characters of a decimal: the digits of the magnitude, behind a sign if the value is negative. -/
theorem toList_decimal (value : Int32) : (decimal value).toList =
    if value.toInt < 0 then '-' :: Nat.toDigits 10 value.toInt.natAbs else Nat.toDigits 10 value.toInt.natAbs := by
  unfold decimal
  by_cases hneg : value.toInt < 0
  · rw [if_pos (neg_iff.mpr hneg), if_pos hneg, String.toList_append, String.toList_ofList,
      List.singleton_append, String.toList_ofList]
  · rw [if_neg (mt neg_iff.mp hneg), if_neg hneg, String.toList_ofList]

theorem isDigit_of_mem {n : Nat} {c : Char} (hc : c ∈ Nat.toDigits 10 n) : c.isDigit :=
  Nat.isDigit_of_mem_toDigits (by decide) (by decide) hc

theorem mem_decimal {c : Char} (hc : c ∈ (decimal value).toList) : c = '-' ∨ c.isDigit := by
  rw [toList_decimal] at hc
  split at hc
  · rcases List.mem_cons.mp hc with rfl | hdigit
    · exact Or.inl rfl
    · exact Or.inr (isDigit_of_mem hdigit)
  · exact Or.inr (isDigit_of_mem hc)

theorem not_mem_decimal {c : Char} (hsign : c ≠ '-') (hdigit : ¬ c.isDigit) : c ∉ (decimal value).toList :=
  fun hc => (mem_decimal hc).elim hsign hdigit

theorem fit?_toInt (value : Int32) : fit? value.toInt = some value := by
  unfold fit?
  rw [Int32.ofInt_toInt, if_pos rfl]

theorem magnitude?_toDigits (n : Nat) : magnitude? (Nat.toDigits 10 n) = some (n : Int) := by
  have hdigits : (Nat.toDigits 10 n).all Char.isDigit = true := List.all_eq_true.mpr fun _ => isDigit_of_mem
  have hsome : (Nat.toDigits 10 n).isEmpty = false := List.isEmpty_eq_false_iff.mpr Nat.toDigits_ne_nil
  unfold magnitude?
  rw [hdigits, hsome, Nat.ofDigitChars_ten_toDigits]
  rfl

/-- A row of digits has no sign in front. -/
theorem value?_toDigits (n : Nat) : value? (Nat.toDigits 10 n) = fit? n := by
  have hread := magnitude?_toDigits n
  cases hdigits : Nat.toDigits 10 n with
  | nil => exact absurd hdigits Nat.toDigits_ne_nil
  | cons c rest =>
    have hc : c.isDigit := isDigit_of_mem (hdigits ▸ List.mem_cons_self)
    have hsign : c ≠ '-' := by
      rintro rfl
      exact absurd hc (by decide)
    rw [hdigits] at hread
    unfold value?
    split
    · rename_i heq
      exact absurd (List.cons.inj heq).1 hsign
    · rw [hread, Option.bind_some]

theorem value?_decimal (value : Int32) : value? (decimal value).toList = some value := by
  rw [toList_decimal]
  split
  · show (magnitude? (Nat.toDigits 10 value.toInt.natAbs)).bind (fun number => fit? (-number)) = some value
    rw [magnitude?_toDigits, Option.bind_some, show -(value.toInt.natAbs : Int) = value.toInt by omega, fit?_toInt]
  · rw [value?_toDigits, show (value.toInt.natAbs : Int) = value.toInt by omega, fit?_toInt]

theorem decimal_ne_nil (value : Int32) : (decimal value).toList ≠ [] := by
  intro hnil
  have hread := value?_decimal value
  rw [hnil] at hread
  exact absurd hread nofun

theorem entry?_decimal (value : Int32) : entry? (decimal value).toList = some value := by
  have hblank : ' ' ∉ (decimal value).toList := not_mem_decimal (by decide) (by decide)
  have hkeeps : (decimal value).toList.dropWhile (· == ' ') = (decimal value).toList := by
    cases hchars : (decimal value).toList with
    | nil => rfl
    | cons c rest =>
      have hc : c ≠ ' ' := fun h => hblank (hchars ▸ h ▸ List.mem_cons_self)
      rw [List.dropWhile_cons_of_neg (by rwa [beq_iff_eq])]
  unfold entry?
  rw [hkeeps, value?_decimal]

theorem entry?_blank_decimal (value : Int32) : entry? (' ' :: (decimal value).toList) = some value :=
  entry?_decimal value

/-! ## Rows of decimals -/

/-- The separators are in front of all decimals but the first. -/
theorem joined_eq (index : Nat) : ∀ (value : Int32) (rest : List Int32),
    decimal value ++ joined (index + 1) rest = ", ".intercalate ((value :: rest).map decimal)
  | value, [] => by
    rw [joined, List.map_cons, List.map_nil, String.intercalate_singleton, String.append_empty]
  | value, next :: rest => by
    have hrest := joined_eq (index + 1) next rest
    rw [List.map_cons] at hrest
    rw [joined, if_pos (Nat.succ_pos index), String.append_assoc, hrest, List.map_cons, List.map_cons,
      String.intercalate_cons_cons, String.append_assoc]

theorem joined_zero : ∀ values, joined 0 values = ", ".intercalate (values.map decimal)
  | [] => String.intercalate_nil.symm
  | value :: rest => by
    rw [joined, if_neg (Nat.lt_irrefl 0), String.empty_append]
    exact joined_eq 0 value rest

theorem display_eq (values : List Int32) : display values = row values := by
  unfold display row
  rw [joined_zero, List.map_congr_left fun value _ => decimal_eq value]

/-- Once an entry is there, the other writer adds what the first one adds. -/
theorem foldl_entry (text : String) (index : Nat) : ∀ values,
    (values.foldl Entries.entry ⟨text, true⟩).text = text ++ joined (index + 1) values
  | [] => String.append_empty.symm
  | value :: rest => by
    have hentry : Entries.entry ⟨text, true⟩ value = ⟨text ++ ", " ++ decimal value, true⟩ := rfl
    rw [List.foldl_cons, hentry, foldl_entry _ (index + 1), joined, if_pos (Nat.succ_pos index)]
    simp only [String.append_assoc]

theorem debug_eq_display : ∀ values, debug values = display values
  | [] => rfl
  | value :: rest => by
    have hentry : Entries.entry ⟨"[", false⟩ value = ⟨"[" ++ decimal value, true⟩ := rfl
    unfold debug display
    rw [List.foldl_cons, hentry, foldl_entry _ 0, joined, if_neg (Nat.lt_irrefl 0), String.empty_append]
    simp only [String.append_assoc]

/-! ## Reading back -/

/-- The commas of a row are where its decimals end. -/
theorem splitOn_joined (index : Nat) (piece : List Char) (hpiece : ',' ∉ piece) : ∀ values,
    (piece ++ (joined (index + 1) values).toList).splitOn ',' =
      piece :: values.map fun value => ' ' :: (decimal value).toList
  | [] => by
    rw [joined, String.toList_empty, List.append_nil, List.splitOn_eq_singleton hpiece, List.map_nil]
  | value :: rest => by
    have hcomma : ',' ∉ ' ' :: (decimal value).toList :=
      List.not_mem_cons_of_ne_of_not_mem (by decide) (not_mem_decimal (by decide) (by decide))
    have hrow : (joined (index + 1) (value :: rest)).toList =
        ',' :: (' ' :: (decimal value).toList ++ (joined (index + 2) rest).toList) := by
      rw [joined, if_pos (Nat.succ_pos index), String.toList_append, String.toList_append]
      rfl
    rw [hrow, List.splitOn_append_cons_self_of_not_mem hpiece, splitOn_joined (index + 1) _ hcomma, List.map_cons]

theorem mapM_entry? : ∀ values : List Int32,
    (values.map fun value => ' ' :: (decimal value).toList).mapM entry? = some values
  | [] => rfl
  | value :: rest => by
    rw [List.map_cons, List.mapM_cons, entry?_blank_decimal, mapM_entry? rest]
    rfl

theorem toList_display (values : List Int32) :
    (display values).toList = '[' :: ((joined 0 values).toList ++ [']']) := by
  unfold display
  rw [String.toList_append, String.toList_append]
  rfl

/-- A text is read back as the values that it was made of. -/
theorem read_display (values : List Int32) : read (display values) = some values := by
  unfold read
  rw [toList_display]
  show (if ((joined 0 values).toList ++ [']']).getLast? ≠ some ']' then none else _) = _
  rw [List.getLast?_concat, if_neg (fun h => h rfl), List.dropLast_concat]
  cases values with
  | nil => rfl
  | cons value rest =>
    have hrow : (joined 0 (value :: rest)).toList = (decimal value).toList ++ (joined 1 rest).toList := by
      rw [joined, if_neg (Nat.lt_irrefl 0), String.empty_append, String.toList_append]
    have hsome : (joined 0 (value :: rest)).toList ≠ [] := by
      rw [hrow]
      exact List.append_ne_nil_of_left_ne_nil (decimal_ne_nil value) _
    rw [if_neg hsome, hrow, splitOn_joined 0 _ (not_mem_decimal (by decide) (by decide)), List.mapM_cons,
      entry?_decimal, mapM_entry?]
    rfl

theorem display_inj {values others : List Int32} : display values = display others ↔ values = others := by
  refine ⟨fun h => ?_, congrArg display⟩
  have hread := congrArg read h
  rw [read_display, read_display] at hread
  exact Option.some.inj hread

example : display [-2147483648, 0, 7] = "[-2147483648, 0, 7]" := by decide

end ListText

/-! ## Lists -/

namespace NodeList

variable {g g' : Geometry}

theorem displayRange_inj {l l' : NodeList} {a : Allocator g} {a' : Allocator g'}
    {start stop start' stop' : Option Reference} :
    l.displayRange a start stop = l'.displayRange a' start' stop' ↔ l.range a start stop = l'.range a' start' stop' :=
  ListText.display_inj

/-- A text loses nothing. It is the decimals of the values in a row, whichever writer makes it, and a row is read back
as its values; two lists, or two parts of lists, have the same text if and only if they have the same values. -/
theorem texts_lose_nothing :
    (∀ values : List Int32, ListText.display values = ListText.row values ∧
      ListText.debug values = ListText.row values ∧ ListText.read (ListText.row values) = some values) ∧
    (∀ {g : Geometry} (l : NodeList) (a : Allocator g),
      l.display a = ListText.row (l.values a) ∧ l.debug a = ListText.row (l.values a) ∧
      ∀ start stop, l.displayRange a start stop = ListText.row (l.range a start stop)) ∧
    (∀ {g g' : Geometry} (l l' : NodeList) (a : Allocator g) (a' : Allocator g'),
      (l.display a = l'.display a' ↔ l.values a = l'.values a') ∧
      ∀ start stop start' stop', l.displayRange a start stop = l'.displayRange a' start' stop' ↔
        l.range a start stop = l'.range a' start' stop') := by
  have hdebug : ∀ values, ListText.debug values = ListText.row values := fun values =>
    (ListText.debug_eq_display values).trans (ListText.display_eq values)
  refine ⟨fun values => ⟨ListText.display_eq values, hdebug values, ?_⟩, fun l a => ?_, fun l l' a a' => ?_⟩
  · rw [← ListText.display_eq, ListText.read_display]
  · exact ⟨ListText.display_eq _, hdebug _, fun _ _ => ListText.display_eq _⟩
  · exact ⟨ListText.display_inj, fun _ _ _ _ => displayRange_inj⟩

end NodeList

end ArenaHeap
