import ArenaHeap.BlockSpace.Basic
import Mathlib.Data.List.Nodup
import Mathlib.Data.List.TakeDrop

/-!
# Loops

What lies in memory is read element by element, each telling where the next one is. Nothing says in advance that such
a loop comes to an end.

* `Iterates` : some elements are read one after the other until nothing is left; `Passes` are the cursors on the way;
* `Loop` : what is done with each element, which may be to leave;
* `Loop.fold`, `Loop.visited` : the outcome of a loop over a list, and the elements that it gets to see;
* `Loop.Ends` : a loop ends with an outcome (`Ends.of_iterates`);
* `Loop.EndsWithin` : moreover it visits no element twice, and not too many (`Iterates.endsWithin`);
* `Loop.fold_span`, `Loop.fold_foldl` : the outcome of a loop that is left at the first element of some kind, or never.
-/

namespace ArenaHeap

variable {κ α β τ ρ : Type}

/-- From a cursor on, elements are read one after the other, until nothing is left at the last cursor. -/
inductive Iterates (next : κ → Option (α × κ)) : κ → List α → κ → Prop
  | stop {k : κ} (hk : next k = none) : Iterates next k [] k
  | step {k k' last : κ} {x : α} {xs : List α} (hk : next k = some (x, k')) (h : Iterates next k' xs last) :
    Iterates next k (x :: xs) last

/-- The second cursor comes after the first. -/
inductive Passes (next : κ → Option (α × κ)) (k : κ) : κ → Prop
  | refl : Passes next k k
  | step {k' k'' : κ} {x : α} (h : Passes next k k') (hk : next k' = some (x, k'')) : Passes next k k''

/-- What is done with an element: the loop is left, or it goes on. -/
inductive Turn (τ ρ : Type) where
  | leave (outcome : ρ)
  | go (state : τ)

/-- A loop over elements. -/
structure Loop (α τ ρ : Type) where
  visit : τ → α → Turn τ ρ
  /-- The outcome of a loop that was not left. -/
  finish : τ → ρ

namespace Loop

variable {loop : Loop α τ ρ} {next : κ → Option (α × κ)} {k last : κ} {t : τ} {xs : List α} {r : ρ}

/-- The outcome of a loop over a list. -/
def fold (loop : Loop α τ ρ) : τ → List α → ρ
  | t, [] => loop.finish t
  | t, x :: xs =>
    match loop.visit t x with
    | .leave r => r
    | .go t => loop.fold t xs

/-- The elements of a list that a loop gets to see. -/
def visited (loop : Loop α τ ρ) : τ → List α → List α
  | _, [] => []
  | t, x :: xs =>
    match loop.visit t x with
    | .leave _ => [x]
    | .go t => x :: loop.visited t xs

/-- The loop ends: from a cursor and a state on it visits some elements, and then it has an outcome. -/
inductive Ends (loop : Loop α τ ρ) (next : κ → Option (α × κ)) : κ → τ → List α → ρ → Prop
  | spent {k : κ} {t : τ} (hk : next k = none) : Ends loop next k t [] (loop.finish t)
  | quit {k k' : κ} {t : τ} {x : α} {r : ρ} (hk : next k = some (x, k')) (hx : loop.visit t x = .leave r) :
    Ends loop next k t [x] r
  | more {k k' : κ} {t t' : τ} {x : α} {xs : List α} {r : ρ} (hk : next k = some (x, k'))
    (hx : loop.visit t x = .go t') (h : Ends loop next k' t' xs r) : Ends loop next k t (x :: xs) r

/-- The loop ends with the outcome `r`. It visits at most `n` elements, and none of them twice. -/
def EndsWithin (loop : Loop α τ ρ) (next : κ → Option (α × κ)) (k : κ) (t : τ) (key : α → β) (n : Nat) (r : ρ) :
    Prop :=
  ∃ xs, loop.Ends next k t xs r ∧ (xs.map key).Nodup ∧ xs.length ≤ n

theorem visited_prefix (loop : Loop α τ ρ) (t : τ) (xs : List α) : loop.visited t xs <+: xs := by
  induction xs generalizing t with
  | nil => exact List.prefix_rfl
  | cons x xs ih =>
    unfold visited
    split
    · exact ⟨xs, rfl⟩
    · exact List.prefix_cons_iff.mpr (Or.inr ⟨_, rfl, ih _⟩)

/-- A loop ends if there are only so many elements, whatever it does with them. -/
theorem Ends.of_iterates (h : Iterates next k xs last) (loop : Loop α τ ρ) (t : τ) :
    loop.Ends next k t (loop.visited t xs) (loop.fold t xs) := by
  induction h generalizing t with
  | stop hk => exact .spent hk
  | step hk h ih =>
    unfold visited fold
    split
    · exact .quit hk ‹_›
    · exact .more hk ‹_› (ih _)

theorem fold_leave {x : α} (hx : loop.visit t x = .leave r) (xs : List α) : loop.fold t (x :: xs) = r := by
  unfold fold
  rw [hx]

theorem fold_go {t' : τ} {x : α} (hx : loop.visit t x = .go t') (xs : List α) :
    loop.fold t (x :: xs) = loop.fold t' xs := by
  rw [fold, hx]

/-- A loop that goes on as long as `p` holds, and that remembers what it passed, has its outcome from there. -/
theorem fold_span (loop : Loop α τ ρ) (p : α → Bool) (state : List α → τ) (out : List α → Option α → ρ)
    (hgo : ∀ pre x, p x = true → loop.visit (state pre) x = .go (state (pre ++ [x])))
    (hleave : ∀ pre x, p x = false → loop.visit (state pre) x = .leave (out pre (some x)))
    (hfinish : ∀ pre, loop.finish (state pre) = out pre none) (pre xs : List α) :
    loop.fold (state pre) xs = out (pre ++ (xs.span p).1) (xs.span p).2.head? := by
  rw [List.span_eq_takeWhile_dropWhile]
  induction xs generalizing pre with
  | nil => rw [fold, hfinish, List.takeWhile_nil, List.dropWhile_nil, List.append_nil, List.head?_nil]
  | cons x xs ih =>
    cases hx : p x with
    | true =>
      rw [fold_go (hgo pre x hx), ih, List.takeWhile_cons_of_pos hx, List.dropWhile_cons_of_pos hx, List.append_assoc,
        List.singleton_append]
    | false =>
      have hnot : ¬ p x = true := by simp [hx]
      rw [fold_leave (hleave pre x hx), List.takeWhile_cons_of_neg hnot, List.dropWhile_cons_of_neg hnot,
        List.append_nil, List.head?_cons]

/-- A loop that is never left. -/
theorem fold_foldl (loop : Loop α τ ρ) (step : τ → α → τ) (hgo : ∀ t x, loop.visit t x = .go (step t x))
    (t : τ) (xs : List α) : loop.fold t xs = loop.finish (xs.foldl step t) := by
  induction xs generalizing t with
  | nil => rfl
  | cons x xs ih =>
    rw [fold_go (hgo t x), ih, List.foldl_cons]

end Loop

/-- Elements that are different and not too many let every loop over them end. -/
theorem Iterates.endsWithin {next : κ → Option (α × κ)} {k last : κ} {xs : List α} (h : Iterates next k xs last)
    (loop : Loop α τ ρ) (t : τ) {key : α → β} {n : Nat} (hkeys : (xs.map key).Nodup) (hlength : xs.length ≤ n) :
    loop.EndsWithin next k t key n (loop.fold t xs) := by
  have hprefix := loop.visited_prefix t xs
  refine ⟨_, .of_iterates h loop t, ?_, Nat.le_trans hprefix.length_le hlength⟩
  exact hkeys.sublist (List.Sublist.map key hprefix.sublist)

end ArenaHeap
