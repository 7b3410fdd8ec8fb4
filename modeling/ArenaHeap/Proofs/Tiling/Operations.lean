import ArenaHeap.Proofs.Tiling.Splice
import Mathlib.Data.List.TakeDrop

/-!
# The operations of block spaces on tilings

* `first_fit` : no free tile is large enough, or there is a first one that is;
* `Tiling.HandsOut` : a tile is cut from a free one;
* `firstFit_eq_none`, `firstFit_eq_some`, `firstFit_uniform` : `firstFit` hands out a part of the first
  that is large enough;
* `freeChain_span` : the free blocks in front of a tile that is handed out, and those behind it;
* `joinNext_eq`, `joinPrevious_eq` : blocks join as tiles do;
* `reclaim_becomes` : `reclaim` frees a tile;
* `extend_cases` : `extend` keeps a tile, refuses, or lets it swallow a free one;
* `fresh_shows` : a fresh arena is one free tile.
-/

namespace ArenaHeap

open Tiling

variable {g : Geometry} {pre post ts : List Tile} {t : Tile}

theorem span_append_of {α : Type} {p : α → Bool} {as bs : List α} (has : ∀ a ∈ as, p a = true)
    (hbs : ∀ b ∈ bs.head?, p b = false) : (as ++ bs).span p = (as, bs) := by
  rw [List.span_eq_takeWhile_dropWhile, List.takeWhile_append_of_pos has,
    List.dropWhile_append_of_pos has]
  cases bs with
  | nil => simp
  | cons b bs =>
    have hb : ¬ p b = true := by simp [hbs b rfl]
    rw [List.takeWhile_cons_of_neg hb, List.dropWhile_cons_of_neg hb, List.append_nil]

namespace Tiling

variable {h : Nat}

theorem mem_frees {o : Nat} {link : Option UInt64} {b : Block} (hb : b ∈ frees h o ts link) :
    ∃ pre t post, ts = pre ++ t :: post ∧ t.free = true ∧ b.offset = .ofNat (o + span h pre) ∧
      b.size = .ofNat t.size := by
  unfold frees at hb
  rw [List.mem_filter] at hb
  obtain ⟨hmem, hfree⟩ := hb
  obtain ⟨pre, t, post, rfl, rfl⟩ := mem_render hmem
  rw [Tile.isFree_header] at hfree
  exact ⟨pre, t, post, rfl, hfree, rfl, Tile.size_header _ _⟩

theorem first_fit (n : Nat) (ts : List Tile) : (∀ t ∈ ts, t.free = true → t.size < n) ∨
    ∃ pre t post, ts = pre ++ t :: post ∧ t.free = true ∧ n ≤ t.size ∧
      ∀ u ∈ pre, u.free = true → u.size < n := by
  induction ts with
  | nil => exact Or.inl (by simp)
  | cons t ts ih =>
    by_cases ht : t.free = true ∧ n ≤ t.size
    · exact Or.inr ⟨[], t, ts, rfl, ht.1, ht.2, by simp⟩
    · have hsmall : t.free = true → t.size < n := fun hfree => by
        by_contra hle
        exact ht ⟨hfree, by omega⟩
      rcases ih with hl | ⟨pre, u, post, rfl, hu, hn, hpre⟩
      · exact Or.inl (List.forall_mem_cons.mpr ⟨hsmall, hl⟩)
      · exact Or.inr ⟨t :: pre, u, post, rfl, hu, hn, List.forall_mem_cons.mpr ⟨hsmall, hpre⟩⟩

/-- The tile `p` is cut from a free one: nothing else changes, and what is written are headers that were
there and usable cells of the free tile. -/
structure HandsOut (g : Geometry) (ts : List Tile) (p : Nat × Nat) (ts' : List Tile) : Prop where
  proper : Proper g ts'
  lives : (live g.front 0 ts').Perm (p :: live g.front 0 ts)
  headers : ∀ i, HeaderCell g.front 0 ts' i → HeaderCell g.front 0 ts i ∨ Idle g.front 0 ts i
  usable : ∀ i, p.1 + g.front ≤ i → i < p.1 + g.front + p.2 → Idle g.front 0 ts i

theorem HandsOut.mem {p : Nat × Nat} {ts' : List Tile} (h : HandsOut g ts p ts') :
    p ∈ live g.front 0 ts' := h.lives.mem_iff.mpr List.mem_cons_self

theorem HandsOut.mem_of {p q : Nat × Nat} {ts' : List Tile} (h : HandsOut g ts p ts')
    (hq : q ∈ live g.front 0 ts) : q ∈ live g.front 0 ts' :=
  h.lives.mem_iff.mpr (List.mem_cons_of_mem _ hq)

theorem HandsOut.ne {p q : Nat × Nat} {ts' : List Tile} (h : HandsOut g ts p ts')
    (hq : q ∈ live g.front 0 ts) : q ≠ p := by
  have hfront := g.le_front
  rintro rfl
  exact not_mem_of_perm (by omega) h.lives hq

theorem headerCell_singleton {h o i : Nat} (hi : HeaderCell h o [t] i) : o ≤ i ∧ i < o + 24 := by
  obtain ⟨p, u, q, he, hlo, hhi⟩ := hi
  obtain ⟨rfl, -, -⟩ : p = [] ∧ u = t ∧ q = [] := by
    simpa [List.append_eq_cons_iff, eq_comm] using he
  exact ⟨hlo, hhi⟩

theorem headerCell_carve {o size n i : Nat} (hi : HeaderCell g.front o (Tiling.carve g size n) i) :
    (o ≤ i ∧ i < o + 24) ∨ (o + g.front ≤ i ∧ i < o + g.front + size) := by
  have hfront := g.le_front
  have hbounds := hi.bounds hfront
  unfold Tiling.carve at hi hbounds
  split at hi
  · rename_i hroom
    rw [if_pos hroom, span_cons, span_cons, span_nil] at hbounds
    change HeaderCell g.front o ([⟨n, false⟩] ++ [⟨size - n - g.front, true⟩]) i at hi
    rcases headerCell_append.mp hi with hhead | hrest
    · exact Or.inl (headerCell_singleton hhead)
    · have hlo := (hrest.bounds hfront).1
      rw [span_cons, span_nil] at hlo
      simp only at hlo hbounds
      omega
  · exact Or.inl (headerCell_singleton hi)

/-- A free tile that is large enough can be carved. -/
theorem HandsOut.carve (hg : g.Exact) (hp : Proper g (pre ++ t :: post)) (ht : t.free = true) {n : Nat}
    (hgrid : g.grid ∣ n) (hpos : 0 < n) (hle : n ≤ t.size) :
    HandsOut g (pre ++ t :: post) (span g.front pre, granted g t.size n)
      (pre ++ (Tiling.carve g t.size n ++ post)) := by
  have hsize : g.grid ∣ t.size := hp.grid t (by simp)
  have hidle (i : Nat) (hlo : span g.front pre + g.front ≤ i) (hhi : i < span g.front pre + g.front + t.size) :
      Idle g.front 0 (pre ++ t :: post) i := ⟨pre, t, post, rfl, ht, by omega, by omega⟩
  refine ⟨Proper.carve hg hp.left hp.right ht hsize hgrid hpos hle, ?_, ?_, ?_⟩
  · rw [live_append, live_append, live_append, live_carve, live_free ht, span_carve hle, Nat.zero_add]
    exact List.perm_middle
  · intro i hi
    rw [headerCell_append, headerCell_append, Nat.zero_add, span_carve hle] at hi
    rcases hi with hpre | hcarve | hpost
    · exact Or.inl (hpre.append_right _)
    · rcases headerCell_carve hcarve with ⟨hlo, hhi⟩ | ⟨hlo, hhi⟩
      · exact Or.inl (headerCell_mid t (by omega) (by omega))
      · exact Or.inr (hidle i hlo hhi)
    · have hbehind : HeaderCell g.front (span g.front pre) ([t] ++ post) i := hpost.append_left
      refine Or.inl (HeaderCell.append_left ?_)
      rw [Nat.zero_add]
      exact hbehind
  · intro i hlo hhi
    have hgranted := granted_le (g := g) hle
    exact hidle i hlo (by simp only at hhi; omega)

end Tiling

namespace BlockSpace

variable {s : BlockSpace g}

/-! ## First fit -/

theorem size_lt_iff {o n : Nat} {link : Option UInt64} {b : Block} (hend : o + span g.front ts < 2 ^ 64)
    (hn : n < 2 ^ 64) (hb : b ∈ frees g.front o ts link) :
    ∃ t ∈ ts, t.free = true ∧ (b.size < .ofNat n ↔ t.size < n) := by
  obtain ⟨pre, t, post, rfl, ht, -, hsize⟩ := mem_frees hb
  rw [span_append, span_cons] at hend
  refine ⟨t, by simp, ht, ?_⟩
  rw [hsize, Word.ofNat_lt_iff (by omega) (by omega)]

theorem small_of_mem_frees {o n : Nat} {link : Option UInt64} (hend : o + span g.front ts < 2 ^ 64)
    (hn : n < 2 ^ 64) (hsmall : ∀ t ∈ ts, t.free = true → t.size < n) :
    ∀ b ∈ frees g.front o ts link, decide (b.size < .ofNat n) = true := by
  intro b hb
  obtain ⟨t, ht, hfree, hiff⟩ := size_lt_iff hend hn hb
  exact decide_eq_true (hiff.mpr (hsmall t ht hfree))

theorem firstFit_eq_none {n : Nat} (hs : s.Shows ts) (hp : Proper g ts) (hn : n < 2 ^ 64)
    (hsmall : ∀ t ∈ ts, t.free = true → t.size < n) : s.firstFit (.ofNat n) = none := by
  have hlt := hs.span_lt
  have hall : ∀ b ∈ frees g.front 0 ts none, decide (b.size < .ofNat n) = true :=
    small_of_mem_frees (by omega) hn hsmall
  have hspan := @span_append_of _ _ _ [] hall (by simp)
  rw [List.append_nil] at hspan
  unfold firstFit
  rw [hs.freeChain_eq hp, hspan]

section Exact

variable (hg : g.Exact)
include hg

theorem firstFit_eq_some {n : Nat} (hs : s.Shows (pre ++ t :: post)) (hp : Proper g (pre ++ t :: post))
    (ht : t.free = true) (hn : n ≤ t.size) (hsmall : ∀ u ∈ pre, u.free = true → u.size < n) :
    ∃ s', s.firstFit (.ofNat n) = some (.ofNat (span g.front pre), s') ∧
      s.Becomes s' (pre ++ (carve g t.size n ++ post)) := by
  have hlt := hs.span_lt
  have hfront := g.le_front
  have hcarve := span_carve (g := g) hn
  rw [span_append, span_cons] at hlt
  have hpre : ∀ b ∈ frees g.front 0 pre (some (.ofNat (span g.front pre))),
      decide (b.size < .ofNat n) = true := small_of_mem_frees (by omega) (by omega) hsmall
  have hlarge : ¬ UInt64.ofNat t.size < .ofNat n := by
    rw [Word.ofNat_lt_iff (by omega) (by omega)]
    omega
  have hend : span g.front pre + (g.front + t.size) < 2 ^ 63 := by omega
  have hnext : firstFree g.front (span g.front pre + (g.front + t.size)) post none ≠ some Header.nil :=
    firstFree_ne_nil (by omega) (by omega) nofun
  obtain ⟨s₁, hhand, hframe, hhead, hmid⟩ := handOut_spec hg s hend hn hnext
  have hsame : span g.front (carve g t.size n) = span g.front [t] := span_carve hn
  have hseam : span g.front pre + (g.front + t.size) = span g.front pre + span g.front (carve g t.size n) := by
    rw [hsame]
    rfl
  have hsplice := Shows.splice hs hsame hframe hhead (hseam ▸ hmid)
  rw [firstFit, hs.freeChain_eq hp, frees_append, firstFree_free ht, frees_free ht, Nat.zero_add,
    span_append_of hpre (fun b hb => ?_)]
  · simp only [hhand]
    refine ⟨_, rfl, ?_⟩
    rw [getLast?_frees, hseam, ← firstFree_append]
    exact hsplice
  · rw [← Option.mem_some_iff.mp hb]
    exact decide_eq_false hlarge

/-- What `firstFit` does, whatever space shows the tiling: nothing because no free tile is large enough,
or hand out a tile. -/
theorem firstFit_uniform (hp : Proper g ts) {n : Nat} (hgrid : g.grid ∣ n) (hpos : 0 < n) (hn : n < 2 ^ 64) :
    (∀ s : BlockSpace g, s.Shows ts → s.firstFit (.ofNat n) = none) ∨
      ∃ p ts', HandsOut g ts p ts' ∧ n ≤ p.2 ∧ ∀ s : BlockSpace g, s.Shows ts → ∃ s',
        s.firstFit (.ofNat n) = some (.ofNat p.1, s') ∧ s.Becomes s' ts' := by
  rcases first_fit n ts with hsmall | ⟨pre, t, post, rfl, ht, hle, hsmall⟩
  · exact Or.inl fun s hs => firstFit_eq_none hs hp hn hsmall
  · exact Or.inr ⟨_, _, .carve hg hp ht hgrid hpos hle, le_granted hle,
      fun s hs => firstFit_eq_some hg hs hp ht hle hsmall⟩

end Exact

/-! ## The free blocks around a tile -/

theorem freeChain_span (hs : s.Shows (pre ++ t :: post)) (hp : Proper g (pre ++ t :: post))
    (ht : t.free = false) :
    s.freeChain.span (fun b => b.offset ≤ .ofNat (span g.front pre)) =
      (frees g.front 0 pre (firstFree g.front (span g.front pre + (g.front + t.size)) post none),
        frees g.front (span g.front pre + (g.front + t.size)) post none) := by
  have hlt := hs.span_lt
  have hfront := g.le_front
  rw [span_append, span_cons] at hlt
  rw [hs.freeChain_eq hp, frees_append, firstFree_live ht, frees_live ht, Nat.zero_add]
  refine span_append_of (fun b hb => decide_eq_true ?_) fun b hb => decide_eq_false ?_
  · obtain ⟨p, u, q, rfl, -, ho, -⟩ := mem_frees hb
    rw [span_append, span_cons] at hlt ⊢
    rw [ho, Word.ofNat_le_iff (by omega) (by omega)]
    omega
  · obtain ⟨p, u, q, rfl, -, ho, -⟩ := mem_frees (List.mem_of_mem_head? hb)
    rw [span_append, span_cons] at hlt
    rw [ho, Word.ofNat_le_iff (by omega) (by omega)]
    omega

/-! ## Taking back -/

theorem stop_free (g : Geometry) (o n : Nat) (next : Option UInt64) :
    Block.stop g ⟨.ofNat o, .free (.ofNat n) next⟩ = .ofNat (o + (g.front + n)) :=
  stop_eq g o ⟨n, true⟩ next

theorem absorb_eq {b : Block} {n : Nat} (hb : b.size = .ofNat n) (o : UInt64) (m : Nat)
    {next : Option UInt64} (hnext : next ≠ some Header.nil) :
    b.absorb g ⟨o, .free (.ofNat m) next⟩ = ⟨b.offset, .free (.ofNat (n + g.front + m)) next⟩ := by
  simp only [Block.absorb]
  rw [hb, Block.size_free, Header.next?_free _ hnext, headerSize_eq, UInt64.ofNat_add,
    UInt64.ofNat_add]

theorem joinNext_eq {o n : Nat} (hend : o + (g.front + n) + span g.front post < 2 ^ 63) :
    joinNext g ⟨.ofNat o, .free (.ofNat n)
        ((frees g.front (o + (g.front + n)) post none).head?.map Block.offset)⟩
        (frees g.front (o + (g.front + n)) post none).head? =
      ⟨.ofNat o, .free (.ofNat (Tiling.joinNext g.front n post).1)
        (firstFree g.front (o + (g.front + (Tiling.joinNext g.front n post).1))
          (Tiling.joinNext g.front n post).2 none)⟩ := by
  have hfront := g.le_front
  rw [head?_frees]
  rcases joinNext_cases g.front n post with ⟨m, rest, rfl, he⟩ | ⟨hhead, he⟩
  · have hseam : o + (g.front + n) + (g.front + m) = o + (g.front + (n + g.front + m)) := by omega
    rw [span_cons] at hend
    simp only at hend
    have hnext : firstFree g.front (o + (g.front + n) + (g.front + m)) rest none ≠ some Header.nil :=
      firstFree_ne_nil (by omega) (by omega) nofun
    rw [he, frees_free rfl, List.head?_cons, joinNext, stop_free, if_pos rfl]
    simp only
    rw [absorb_eq rfl _ _ hnext, hseam]
  · rw [he]
    cases hfree : (frees g.front (o + (g.front + n)) post none).head? with
    | none => rfl
    | some b =>
      obtain ⟨p, u, q, rfl, hu, ho, -⟩ := mem_frees (List.mem_of_mem_head? hfree)
      have hne : ¬ UInt64.ofNat (o + (g.front + n)) = b.offset := by
        rw [ho]
        intro hsame
        rw [span_append, span_cons] at hend
        have hp := Word.ofNat_inj (by omega) (by omega) hsame
        cases p with
        | nil =>
          have hlive := hhead u rfl
          rw [hu] at hlive
          cases hlive
        | cons x p =>
          rw [span_cons] at hp
          omega
      rw [joinNext, stop_free, if_neg hne]

/-- If the last tile is handed out, no free block reaches up to the end. -/
theorem stop_ne {link : Option UInt64} {b : Block} (hend : span g.front pre < 2 ^ 64)
    (hlast : ∀ u ∈ pre.getLast?, u.free = false) (hb : b ∈ frees g.front 0 pre link) :
    Block.stop g b ≠ .ofNat (span g.front pre) := by
  have hfront := g.le_front
  obtain ⟨p, u, q, rfl, hu, ho, hsize⟩ := mem_frees hb
  have hstop : Block.stop g b = .ofNat (span g.front p + (g.front + u.size)) := by
    rw [Block.stop, ho, hsize, headerSize_eq, Nat.zero_add, UInt64.ofNat_add, UInt64.ofNat_add,
      UInt64.add_assoc]
  rw [span_append, span_cons] at hend ⊢
  rw [hstop]
  intro hsame
  have hq := Word.ofNat_inj (by omega) (by omega) hsame
  cases q with
  | nil =>
    have hlive := hlast u (by simp)
    rw [hu] at hlive
    cases hlive
  | cons x q =>
    rw [span_cons] at hq
    omega

/-- A free block joins the one in front of it as a tile does, and the block before is then the last
free one of the tiles that are left in front. -/
theorem joinPrevious_eq {n : Nat} {link next : Option UInt64} {next? : Option Block}
    (hend : span g.front pre + (g.front + n) < 2 ^ 63) (hnext : next ≠ some Header.nil) :
    ∃ before, FreeAround.joinPrevious g
        ⟨(frees g.front 0 pre link).dropLast.getLast?, (frees g.front 0 pre link).getLast?, next?⟩
        ⟨.ofNat (span g.front pre), .free (.ofNat n) next⟩ =
      (⟨.ofNat (span g.front (Tiling.joinPrevious g.front pre n).1),
        .free (.ofNat (Tiling.joinPrevious g.front pre n).2) next⟩, before) ∧
      before.map Block.offset = lastFree g.front (Tiling.joinPrevious g.front pre n).1 := by
  have hfront := g.le_front
  rcases joinPrevious_cases g.front pre n with ⟨m, rest, rfl, he⟩ | ⟨hlast, he⟩
  · have hfrees : frees g.front 0 (rest ++ [⟨m, true⟩]) link =
        frees g.front 0 rest (some (.ofNat (span g.front rest))) ++
          [⟨.ofNat (span g.front rest), .free (.ofNat m) link⟩] := by
      rw [frees_append, firstFree_free rfl, frees_free rfl, Nat.zero_add]
      rfl
    have hseam : span g.front (rest ++ [⟨m, true⟩]) = span g.front rest + (g.front + m) := by
      rw [span_append]
      rfl
    refine ⟨(frees g.front 0 rest (some (.ofNat (span g.front rest)))).getLast?, ?_, ?_⟩
    · rw [he, hfrees, hseam, List.dropLast_concat, List.getLast?_concat, FreeAround.joinPrevious]
      simp only
      rw [stop_free, if_pos rfl, absorb_eq rfl _ _ hnext]
    · rw [he, getLast?_frees]
  · refine ⟨(frees g.front 0 pre link).getLast?, ?_, ?_⟩
    · rw [he]
      cases hfree : (frees g.front 0 pre link).getLast? with
      | none => rfl
      | some b =>
        have hne := stop_ne (by omega) hlast (List.mem_of_getLast? hfree)
        unfold FreeAround.joinPrevious
        simp only
        rw [if_neg hne]
    · rw [he, getLast?_frees]

theorem Shows.merge {mid : List Tile} {n : Nat} (hs : s.Shows (pre ++ (mid ++ post)))
    (hspan : g.front + n = span g.front mid) :
    s.Becomes ((s.write ⟨.ofNat (span g.front pre), .free (.ofNat n)
        (firstFree g.front (span g.front pre + (g.front + n)) post none)⟩).redirect
        (lastFree g.front pre) (some (.ofNat (span g.front pre))))
      (pre ++ ⟨n, true⟩ :: post) := by
  have hlt := hs.span_lt
  rw [span_append] at hlt
  have hframe : s.Frame (s.write ⟨.ofNat (span g.front pre), .free (.ofNat n)
      (firstFree g.front (span g.front pre + (g.front + n)) post none)⟩)
      (HeaderCell g.front (span g.front pre) [⟨n, true⟩]) :=
    (frame_write s (by omega) _).mono fun i hi => ⟨[], _, [], rfl, hi⟩
  have hsame : span g.front [⟨n, true⟩] = span g.front mid := hspan
  apply Shows.splice hs hsame hframe (head_write s _)
  rw [memory_write]
  exact Memory.bears_setHeader _ _ _

/-- A tile that is taken back becomes free, and merges with its free neighbours. -/
theorem reclaim_becomes (hs : s.Shows (pre ++ t :: post)) (hp : Proper g (pre ++ t :: post))
    (ht : t.free = false) :
    s.Becomes (s.reclaim (.ofNat (span g.front pre))) (freed g.front pre t.size post) := by
  have hlt := hs.span_lt
  have hfront := g.le_front
  obtain ⟨mid, hsplit⟩ := joined_split g.front pre t post
  have hspan := congrArg (span g.front) hsplit
  simp only [span_append, span_cons] at hlt hspan
  have hnextSpan := (joinNext_same g.front 0 t.size post).1
  have hprevSpan := (joinPrevious_same g.front pre (Tiling.joinNext g.front t.size post).1).1
  have hend : span g.front pre + (g.front + t.size) + span g.front post < 2 ^ 63 := by omega
  have hnext := joinNext_eq hend
  rw [freed_eq]
  generalize Tiling.joinNext g.front t.size post = behind at *
  obtain ⟨n, rest⟩ := behind
  simp only at hnextSpan hprevSpan hnext hspan hsplit ⊢
  obtain ⟨before, hprev, hbefore⟩ := @joinPrevious_eq g pre n
    (firstFree g.front (span g.front pre + (g.front + t.size)) post none)
    (firstFree g.front (span g.front pre + (g.front + n)) rest none)
    (frees g.front (span g.front pre + (g.front + t.size)) post none).head?
    (by omega) (firstFree_ne_nil (by omega) (by omega) nofun)
  generalize Tiling.joinPrevious g.front pre n = front at *
  obtain ⟨pre', m⟩ := front
  simp only at hprevSpan hprev hbefore hspan hsplit ⊢
  have hseam : span g.front pre + (g.front + n) = span g.front pre' + (g.front + m) := by omega
  unfold reclaim
  rw [freeAround, freeChain_span hs hp ht, hs.size_block]
  simp only
  rw [hnext, hprev]
  simp only
  rw [hbefore, hseam]
  exact Shows.merge (hsplit ▸ hs) (by omega)

/-! ## Growing -/

theorem extend_of_le {n : Nat} (hs : s.Shows (pre ++ t :: post)) (hn : n ≤ t.size) :
    s.extend (.ofNat (span g.front pre)) (.ofNat n) = some (.ofNat t.size, s) := by
  have hlt := hs.span_lt
  rw [span_append, span_cons] at hlt
  have hfits : UInt64.ofNat n ≤ .ofNat t.size := (Word.ofNat_le_iff (by omega) (by omega)).mpr hn
  unfold extend
  simp only [hs.size_block, hfits, ↓reduceIte]

/-- At the end of the arena, and in front of a tile that is handed out, there is nothing to swallow. -/
theorem extend_of_head_live {n : Nat} (hs : s.Shows (pre ++ t :: post)) (hmore : t.size < n)
    (hn : n < 2 ^ 64) (hhead : ∀ u ∈ post.head?, u.free = false) :
    s.extend (.ofNat (span g.front pre)) (.ofNat n) = none := by
  have hlt := hs.span_lt
  have hcovers := hs.covers
  have hfront := g.le_front
  rw [span_append, span_cons] at hlt hcovers
  have hfits : ¬ UInt64.ofNat n ≤ .ofNat t.size := by
    rw [Word.ofNat_le_iff hn (by omega)]
    omega
  have hend : s.capacity ≤ .ofNat (span g.front pre + (g.front + t.size)) ↔ span g.front post = 0 := by
    rw [UInt64.le_iff_toNat_le, Word.toNat_ofNat (by omega)]
    omega
  unfold extend
  cases post with
  | nil => simp only [hs.size_block, hs.stop_block, hfits, hend.mpr span_nil, ↓reduceIte]
  | cons u rest =>
    have hinside : ¬ s.capacity ≤ .ofNat (span g.front pre + (g.front + t.size)) := by
      rw [hend, span_cons]
      omega
    simp only [hs.size_block, hs.stop_block, hs.block_behind, hfits, hinside, ↓reduceIte,
      Tile.isFree_header, hhead u rfl, Bool.not_false, Bool.true_or]

/-- A block together with the free block right behind it. -/
theorem Shows.absorb_behind {m : Nat} {rest : List Tile} (hs : s.Shows (pre ++ t :: ⟨m, true⟩ :: rest)) :
    (s.block (.ofNat (span g.front pre))).absorb g
        (s.block (.ofNat (span g.front pre + (g.front + t.size)))) =
      ⟨.ofNat (span g.front pre), .free (.ofNat (t.size + g.front + m))
        (firstFree g.front (span g.front pre + (g.front + t.size) + (g.front + m)) rest none)⟩ := by
  have hlt := hs.span_lt
  have hfront := g.le_front
  simp only [span_append, span_cons] at hlt
  have hnext : firstFree g.front (span g.front pre + (g.front + t.size) + (g.front + m)) rest none ≠
      some Header.nil := firstFree_ne_nil (by omega) (by omega) nofun
  rw [hs.block_behind, Tile.header_free rfl]
  exact absorb_eq hs.size_block _ m hnext

theorem extend_of_head_free {n m : Nat} {rest : List Tile} (hs : s.Shows (pre ++ t :: ⟨m, true⟩ :: rest))
    (hmore : t.size < n) (hn : n < 2 ^ 64) :
    s.extend (.ofNat (span g.front pre)) (.ofNat n) =
      if t.size + g.front + m < n then none
      else
        let (taken, replacement) := s.handOut ⟨.ofNat (span g.front pre),
          .free (.ofNat (t.size + g.front + m)) (firstFree g.front
            (span g.front pre + (g.front + t.size) + (g.front + m)) rest none)⟩ (.ofNat n)
        let grown := taken.redirect
          ((s.freeAround (.ofNat (span g.front pre))).previous.map Block.offset) replacement
        some ((grown.block (.ofNat (span g.front pre))).size, grown) := by
  have hlt := hs.span_lt
  have hcovers := hs.covers
  have hfront := g.le_front
  simp only [span_append, span_cons] at hlt hcovers
  have hfits : ¬ UInt64.ofNat n ≤ .ofNat t.size := by
    rw [Word.ofNat_le_iff hn (by omega)]
    omega
  have hinside : ¬ s.capacity ≤ .ofNat (span g.front pre + (g.front + t.size)) := by
    rw [UInt64.le_iff_toNat_le, Word.toNat_ofNat (by omega)]
    omega
  have habsorb := hs.absorb_behind
  have hfree : (s.block (.ofNat (span g.front pre + (g.front + t.size)))).header.isFree = true := by
    rw [hs.block_behind, Tile.isFree_header]
  have htotal : UInt64.ofNat (t.size + g.front + m) < .ofNat n ↔ t.size + g.front + m < n := by
    rw [Word.ofNat_lt_iff (by omega) (by omega)]
  unfold extend
  simp only [hs.size_block, hs.stop_block, hfits, hinside, hfree, habsorb, ↓reduceIte, Bool.not_true,
    Bool.false_or, Block.size_free, htotal, decide_eq_true_eq]

section Exact

variable (hg : g.Exact)
include hg

theorem extend_becomes {n m : Nat} {rest : List Tile} (hs : s.Shows (pre ++ t :: ⟨m, true⟩ :: rest))
    (hp : Proper g (pre ++ t :: ⟨m, true⟩ :: rest)) (ht : t.free = false) (hmore : t.size < n)
    (hn : n ≤ t.size + g.front + m) :
    ∃ s', s.extend (.ofNat (span g.front pre)) (.ofNat n) =
        some (.ofNat (granted g (t.size + g.front + m) n), s') ∧
      s.Becomes s' (pre ++ (carve g (t.size + g.front + m) n ++ rest)) := by
  have hlt := hs.span_lt
  have hfront := g.le_front
  simp only [span_append, span_cons] at hlt
  have hend : span g.front pre + (g.front + (t.size + g.front + m)) < 2 ^ 63 := by omega
  have hnext : firstFree g.front (span g.front pre + (g.front + t.size) + (g.front + m)) rest none ≠
      some Header.nil := firstFree_ne_nil (by omega) (by omega) nofun
  obtain ⟨s₁, hhand, hframe, hhead, hmid⟩ := handOut_spec hg s hend hn hnext
  have hsame : span g.front (carve g (t.size + g.front + m) n) = span g.front [t, ⟨m, true⟩] := by
    rw [span_carve hn]
    simp only [span_cons, span_nil]
    omega
  have hseam : span g.front pre + (g.front + t.size) + (g.front + m) =
      span g.front pre + span g.front (carve g (t.size + g.front + m) n) := by
    rw [hsame]
    simp only [span_cons, span_nil]
    omega
  have hs' : s.Shows (pre ++ ([t, ⟨m, true⟩] ++ rest)) := hs
  have hsplice := Shows.splice hs' hsame hframe hhead (hseam ▸ hmid)
  have hgrant : ((s₁.redirect (lastFree g.front pre) (firstFree g.front (span g.front pre)
      (carve g (t.size + g.front + m) n ++ rest) none)).block (.ofNat (span g.front pre))).size =
        .ofNat (granted g (t.size + g.front + m) n) := by
    obtain ⟨tail, hcarve, -⟩ := carve_eq g (t.size + g.front + m) n
    have hshows := hsplice.shows
    rw [hcarve] at hshows ⊢
    exact hshows.size_block
  refine ⟨_, ?_, hsplice⟩
  rw [extend_of_head_free hs hmore (by omega), if_neg (by omega), hhand]
  simp only
  unfold freeAround
  rw [freeChain_span hs hp ht]
  simp only
  rw [getLast?_frees, hseam, ← firstFree_append, hgrant]

/-- What `extend` can do, whatever space shows the tiling: nothing because the tile is large enough,
nothing because there is no room behind it, or let it swallow the free tile behind it. -/
theorem extend_cases {n : Nat} (hp : Proper g (pre ++ t :: post)) (ht : t.free = false) (hn : n < 2 ^ 64) :
    (n ≤ t.size ∧ ∀ s : BlockSpace g, s.Shows (pre ++ t :: post) →
        s.extend (.ofNat (span g.front pre)) (.ofNat n) = some (.ofNat t.size, s)) ∨
      (t.size < n ∧ (∀ m rest, post = ⟨m, true⟩ :: rest → t.size + g.front + m < n) ∧
        ∀ s : BlockSpace g, s.Shows (pre ++ t :: post) →
          s.extend (.ofNat (span g.front pre)) (.ofNat n) = none) ∨
      ∃ m rest, post = ⟨m, true⟩ :: rest ∧ t.size < n ∧ n ≤ t.size + g.front + m ∧
        ∀ s : BlockSpace g, s.Shows (pre ++ t :: post) → ∃ s',
          s.extend (.ofNat (span g.front pre)) (.ofNat n) =
            some (.ofNat (granted g (t.size + g.front + m) n), s') ∧
          s.Becomes s' (pre ++ (carve g (t.size + g.front + m) n ++ rest)) := by
  by_cases hle : n ≤ t.size
  · exact Or.inl ⟨hle, fun s hs => extend_of_le hs hle⟩
  have hmore : t.size < n := by omega
  right
  rcases joinNext_cases g.front n post with ⟨m, rest, rfl, -⟩ | ⟨hhead, -⟩
  · by_cases hshort : t.size + g.front + m < n
    · refine Or.inl ⟨hmore, ?_, fun s hs => ?_⟩
      · intro m' rest' he
        rw [List.cons.injEq, Tile.mk.injEq] at he
        omega
      · rw [extend_of_head_free hs hmore hn, if_pos hshort]
    · exact Or.inr ⟨m, rest, rfl, hmore, by omega, fun s hs => extend_becomes hg hs hp ht hmore (by omega)⟩
  · refine Or.inl ⟨hmore, ?_, fun s hs => extend_of_head_live hs hmore hn hhead⟩
    intro m rest he
    have hlive := hhead ⟨m, true⟩ (by rw [he]; rfl)
    cases hlive

end Exact

/-! ## A fresh arena -/

theorem fresh_shows (arena : Arena) (hroom : g.front ≤ arena.size.toNat) :
    (fresh g arena).Shows [⟨arena.size.toNat - g.front, true⟩] := by
  have hsize : arena.size - g.headerSize = .ofNat (arena.size.toNat - g.front) := by
    rw [headerSize_eq, UInt64.ofNat_sub hroom, UInt64.ofNat_toNat]
  unfold fresh
  rw [hsize]
  refine ⟨?_, ?_, ?_⟩
  · rw [capacity_write, span_cons, span_nil]
    exact Nat.add_sub_cancel' hroom
  · rw [head_write, firstFree_free rfl]
    rfl
  · rw [memory_write]
    exact Memory.bears_setHeader _ _ _

end BlockSpace

end ArenaHeap
