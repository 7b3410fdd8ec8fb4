import ArenaHeap.NodeList.Basic

/-!
# Parts of sequences

* `onward`, `upTo`, `part` : what a sequence has from one named element on, up to one, and between the two;
* `onward_split`, `upTo_split`, `onward_missing`, `upTo_missing` : parts, by where the named element is;
* `part_map` : parts of sequences whose elements have the same names;
* `Reference.names` : a reference leads to a node;
* `NodeList.slice_eq` : the traversal of a range yields the values of the part.
-/

namespace ArenaHeap

/-! ## Parts -/

section Parts

variable {α β ρ σ : Type} {names : ρ → α → Bool} {as bs xs : List α} {x : α} {r : ρ}

/-- A sequence from the first element with a name on, if a name is given. No element has the name: nothing. -/
def onward (names : ρ → α → Bool) : Option ρ → List α → List α
  | none, xs => xs
  | some r, xs => xs.drop (xs.findIdx (names r))

/-- A sequence up to and including the first element with a name, if a name is given. No element has the name: all
of it. -/
def upTo (names : ρ → α → Bool) : Option ρ → List α → List α
  | none, xs => xs
  | some r, xs => xs.take (xs.findIdx (names r) + 1)

/-- The elements from the one that `start` names up to and including the first from there on that `stop` names. -/
def part (names : ρ → α → Bool) (start stop : Option ρ) (xs : List α) : List α :=
  upTo names stop (onward names start xs)

theorem findIdx_split {p : α → Bool} (hx : p x = true) (has : ∀ a ∈ as, p a = false) :
    (as ++ x :: bs).findIdx p = as.length := by
  rw [List.findIdx_append, List.findIdx_eq_length_of_false has, if_neg (Nat.lt_irrefl _), List.findIdx_cons, hx]
  exact Nat.zero_add _

theorem onward_split (hx : names r x = true) (has : ∀ a ∈ as, names r a = false) :
    onward names (some r) (as ++ x :: bs) = x :: bs := by
  rw [onward, findIdx_split hx has, List.drop_left]

theorem upTo_split (hx : names r x = true) (has : ∀ a ∈ as, names r a = false) :
    upTo names (some r) (as ++ x :: bs) = as ++ [x] := by
  rw [upTo, findIdx_split hx has, List.take_length_add_append]
  rfl

theorem onward_missing (hnone : ∀ x ∈ xs, names r x = false) : onward names (some r) xs = [] := by
  rw [onward, List.findIdx_eq_length_of_false hnone, List.drop_length]

theorem upTo_missing (hnone : ∀ x ∈ xs, names r x = false) : upTo names (some r) xs = xs := by
  rw [upTo, List.findIdx_eq_length_of_false hnone, List.take_of_length_le (Nat.le_succ _)]

theorem upTo_nil (stop : Option ρ) : upTo names stop [] = [] := by
  cases stop with
  | none => rfl
  | some r => exact List.take_nil

theorem upTo_cons (stop : Option ρ) :
    upTo names stop (x :: xs) = x :: if stop.any (names · x) then [] else upTo names stop xs := by
  cases stop with
  | none => rfl
  | some r =>
    rw [upTo, List.findIdx_cons, Option.any_some]
    cases names r x with
    | true => rfl
    | false => rfl

theorem onward_cons : onward names (some r) (x :: xs) = if names r x then x :: xs else onward names (some r) xs := by
  rw [onward, List.findIdx_cons]
  cases names r x with
  | true => rfl
  | false => rfl

theorem mem_onward {start : Option ρ} (hx : x ∈ onward names start xs) : x ∈ xs := by
  cases start with
  | none => exact hx
  | some r => exact List.mem_of_mem_drop hx

theorem findIdx_map_congr {p : α → Bool} {q : β → Bool} {f : α → β} (h : ∀ x ∈ xs, q (f x) = p x) :
    (xs.map f).findIdx q = xs.findIdx p := by
  induction xs with
  | nil => rfl
  | cons x xs ih =>
    obtain ⟨hx, hxs⟩ := List.forall_mem_cons.mp h
    rw [List.map_cons, List.findIdx_cons, List.findIdx_cons, hx, ih hxs]

/-- Parts of sequences whose elements have the same names. -/
theorem part_map {names' : σ → β → Bool} {f : α → β} {h : ρ → σ} {start stop : Option ρ}
    (hstart : ∀ r ∈ start, ∀ x ∈ xs, names' (h r) (f x) = names r x)
    (hstop : ∀ r ∈ stop, ∀ x ∈ xs, names' (h r) (f x) = names r x) :
    part names' (start.map h) (stop.map h) (xs.map f) = (part names start stop xs).map f := by
  have honward : onward names' (start.map h) (xs.map f) = (onward names start xs).map f := by
    cases start with
    | none => rfl
    | some r => rw [Option.map_some, onward, onward, findIdx_map_congr (hstart r rfl), List.map_drop]
  unfold part
  rw [honward]
  cases stop with
  | none => rfl
  | some r =>
    rw [Option.map_some, upTo, upTo, findIdx_map_congr fun x hx => hstop r rfl x (mem_onward hx), List.map_take]

end Parts

/-! ## Names of nodes -/

theorem Reference.same_self (r : Reference) : r.same r = true := by
  simp [same]

theorem Reference.same_comm (r s : Reference) : r.same s = s.same r := by
  rw [same, same, Bool.beq_comm, Bool.beq_comm (a := r.stamp)]

/-- Names of one node name the same nodes. -/
theorem Reference.same_congr {r s : Reference} (h : r.same s = true) : r.same = s.same := by
  obtain ⟨haddress, hstamp⟩ := (Bool.and_eq_true _ _).mp h
  funext t
  rw [same, same, eq_of_beq haddress, eq_of_beq hstamp]

/-- Whether the reference leads to the node of another one. -/
def Reference.names (r x : Reference) : Bool := x.same r

theorem Reference.names_self (r : Reference) : r.names r = true := r.same_self

theorem Reference.same_of_names {r x y : Reference} (hx : r.names x = true) (hy : r.names y = true) :
    x.same y = true := by
  have hx : x.same r = true := hx
  have hy : y.same r = true := hy
  rw [same_congr hx, same_comm, hy]

/-! ## Ranges -/

namespace NodeList

variable {r : Reference} {ps : List Placed}

theorem slice_started (start stop : Option Reference) (ps : List Placed) :
    slice start stop true ps = (upTo Reference.names stop (ps.map Placed.ref)).map Reference.value := by
  induction ps with
  | nil =>
    rw [List.map_nil, upTo_nil]
    rfl
  | cons p ps ih =>
    have hnames : stop.any (Reference.names · p.ref) = stop.any p.ref.same := rfl
    rw [slice, Bool.true_or, if_pos rfl, List.map_cons, upTo_cons, hnames, ih]
    cases stop.any p.ref.same with
    | true => rfl
    | false => rfl

/-- The traversal of a range yields the values of the part. -/
theorem slice_eq (start stop : Option Reference) (ps : List Placed) : slice start stop start.isNone ps =
    (part Reference.names start stop (ps.map Placed.ref)).map Reference.value := by
  cases start with
  | none => exact slice_started none stop ps
  | some r =>
    unfold part
    -- Up to the node of `r` nothing is taken, and from there on the traversal has started.
    induction ps with
    | nil =>
      rw [List.map_nil, onward, List.drop_nil, upTo_nil]
      rfl
    | cons p ps ih =>
      have hnames : Reference.names r p.ref = p.ref.same r := rfl
      have hstarted := slice_started (some r) stop (p :: ps)
      rw [slice, Bool.true_or, if_pos rfl] at hstarted
      rw [slice, Option.isNone_some, Bool.false_or, Option.any_some, List.map_cons, onward_cons, hnames]
      cases p.ref.same r with
      | true => exact hstarted
      | false => exact ih

theorem slice_start_missing (hnone : ∀ p ∈ ps, p.ref.same r = false) (stop : Option Reference) :
    slice (some r) stop false ps = [] := by
  have hrefs : ∀ x ∈ ps.map Placed.ref, r.names x = false := List.forall_mem_map.mpr hnone
  refine (slice_eq (some r) stop ps).trans ?_
  rw [part, onward_missing hrefs, upTo_nil, List.map_nil]

theorem slice_stop_missing (hnone : ∀ p ∈ ps, p.ref.same r = false) (start : Option Reference) :
    slice start (some r) start.isNone ps = slice start none start.isNone ps := by
  have hrefs : ∀ x ∈ ps.map Placed.ref, r.names x = false := List.forall_mem_map.mpr hnone
  rw [slice_eq, slice_eq, part, upTo_missing fun x hx => hrefs x (mem_onward hx)]
  rfl

end NodeList

end ArenaHeap
