import ArenaHeap.BlockSpace.Basic
import ArenaHeap.Proofs.Geometry
import Mathlib.Data.List.Chain

/-!
# Tilings

A tiling is the list of the blocks of an arena without their places and links, which follow from it.
The first tile lies at some offset `o`, and `h` bytes of header are in front of every usable region.

* `Tile`, `Tiling.span` : a block without its place, and the bytes that some of them take;
* `firstFree`, `render` : the links and the headers that a tiling calls for; `frees` are the free ones;
* `live` : offset and size of each tile that is handed out;
* `render_append`, `live_append` : both of a concatenation;
* `Proper` : sizes are positive and on the grid, and no two free tiles are neighbours;
* `length_mul_le` : each tile takes a header and a grain at least.
-/

namespace ArenaHeap

/-- A block without its place and its link. -/
structure Tile where
  size : Nat
  free : Bool
deriving DecidableEq, Repr

namespace Tile

/-- The header of a tile, whose successor in the chain is `next` if it is free. -/
def header (t : Tile) (next : Option UInt64) : Header :=
  if t.free then .free (.ofNat t.size) next else .allocated (.ofNat t.size)

@[simp] theorem isFree_header (t : Tile) (next : Option UInt64) : (t.header next).isFree = t.free := by
  obtain ⟨n, _ | _⟩ := t <;> rfl

@[simp] theorem isAllocated_header (t : Tile) (next : Option UInt64) :
    (t.header next).isAllocated = !t.free := by
  obtain ⟨n, _ | _⟩ := t <;> rfl

@[simp] theorem size_header (t : Tile) (next : Option UInt64) : (t.header next).size = .ofNat t.size := by
  obtain ⟨n, _ | _⟩ := t <;> rfl

theorem header_free {t : Tile} (ht : t.free = true) (next : Option UInt64) :
    t.header next = .free (.ofNat t.size) next := if_pos ht

theorem header_live {t : Tile} (ht : t.free = false) (next : Option UInt64) :
    t.header next = .allocated (.ofNat t.size) := by
  unfold header
  rw [if_neg (by simp [ht])]

end Tile

theorem Block.size_free (o size : UInt64) (next : Option UInt64) :
    Block.size ⟨o, .free size next⟩ = size := rfl

theorem Header.next?_free (size : UInt64) {next : Option UInt64} (hnext : next ≠ some Header.nil) :
    (Header.free size next).next? = next := by
  cases next with
  | none => rfl
  | some offset =>
    have hne : offset ≠ Header.nil := fun he => hnext (by rw [he])
    exact if_neg hne

namespace Tiling

variable {h : Nat}

/-! ## Spans -/

/-- The bytes that some tiles take, headers included. -/
def span (h : Nat) : List Tile → Nat
  | [] => 0
  | t :: ts => h + t.size + span h ts

@[simp] theorem span_nil : span h [] = 0 := rfl

@[simp] theorem span_cons (t : Tile) (ts : List Tile) : span h (t :: ts) = h + t.size + span h ts := rfl

@[simp] theorem span_append (as bs : List Tile) : span h (as ++ bs) = span h as + span h bs := by
  induction as with
  | nil => simp
  | cons a as ih => rw [List.cons_append, span_cons, span_cons, ih, ← Nat.add_assoc]

/-- Two ways to point at a tile of one list: at the same tile, or at one in front of the other. -/
theorem split_cases {α : Type} {pre post pre' post' : List α} {t t' : α}
    (he : pre ++ t :: post = pre' ++ t' :: post') :
    (pre = pre' ∧ t = t' ∧ post = post') ∨
      (∃ mid, pre' = pre ++ t :: mid ∧ post = mid ++ t' :: post') ∨
      (∃ mid, pre = pre' ++ t' :: mid ∧ post' = mid ++ t :: post) := by
  rcases List.append_eq_append_iff.mp he with ⟨_ | ⟨x, mid⟩, h1, h2⟩ | ⟨_ | ⟨x, mid⟩, h1, h2⟩
  · rw [List.nil_append, List.cons.injEq] at h2
    exact Or.inl ⟨by simpa using h1.symm, h2.1, h2.2⟩
  · rw [List.cons_append, List.cons.injEq] at h2
    exact Or.inr (Or.inl ⟨mid, by rw [h1, h2.1], h2.2⟩)
  · rw [List.nil_append, List.cons.injEq] at h2
    exact Or.inl ⟨by simpa using h1, h2.1.symm, h2.2.symm⟩
  · rw [List.cons_append, List.cons.injEq] at h2
    exact Or.inr (Or.inr ⟨mid, by rw [h1, h2.1], h2.2⟩)

/-! ## Links and headers -/

/-- The offset of the first free tile, or `link` if there is none. -/
def firstFree (h : Nat) : Nat → List Tile → Option UInt64 → Option UInt64
  | _, [], link => link
  | o, t :: ts, link => if t.free then some (.ofNat o) else firstFree h (o + (h + t.size)) ts link

/-- The blocks that a tiling calls for. The last free tile is linked to `link`. -/
def render (h : Nat) : Nat → List Tile → Option UInt64 → List Block
  | _, [], _ => []
  | o, t :: ts, link =>
    ⟨.ofNat o, t.header (firstFree h (o + (h + t.size)) ts link)⟩ :: render h (o + (h + t.size)) ts link

/-- The free blocks among those that a tiling calls for. -/
def frees (h o : Nat) (ts : List Tile) (link : Option UInt64) : List Block :=
  (render h o ts link).filter (·.header.isFree)

@[simp] theorem firstFree_nil (o : Nat) (link : Option UInt64) : firstFree h o [] link = link := rfl

theorem firstFree_free {t : Tile} (ht : t.free = true) (o : Nat) (ts : List Tile) (link : Option UInt64) :
    firstFree h o (t :: ts) link = some (.ofNat o) := if_pos ht

theorem firstFree_live {t : Tile} (ht : t.free = false) (o : Nat) (ts : List Tile) (link : Option UInt64) :
    firstFree h o (t :: ts) link = firstFree h (o + (h + t.size)) ts link := by
  rw [firstFree, if_neg (by simp [ht])]

theorem firstFree_append (o : Nat) (as bs : List Tile) (link : Option UInt64) :
    firstFree h o (as ++ bs) link = firstFree h o as (firstFree h (o + span h as) bs link) := by
  induction as generalizing o with
  | nil => simp
  | cons a as ih =>
    rw [List.cons_append, firstFree, firstFree, ih, span_cons, Nat.add_assoc]

theorem firstFree_of_live {ts : List Tile} (hl : ∀ t ∈ ts, t.free = false) (o : Nat)
    (link : Option UInt64) : firstFree h o ts link = link := by
  induction ts generalizing o with
  | nil => rfl
  | cons t ts ih =>
    rw [firstFree_live (hl t List.mem_cons_self), ih fun u hu => hl u (List.mem_cons_of_mem _ hu)]

theorem firstFree_ne_nil {o : Nat} {ts : List Tile} {link : Option UInt64}
    (hspan : o + span h ts < 2 ^ 64) (hpos : 0 < h) (hlink : link ≠ some Header.nil) :
    firstFree h o ts link ≠ some Header.nil := by
  induction ts generalizing o with
  | nil => exact hlink
  | cons t ts ih =>
    rw [span_cons] at hspan
    cases ht : t.free with
    | true =>
      rw [firstFree_free ht]
      intro he
      have hword : (UInt64.ofNat o).toNat = Header.nil.toNat := congrArg UInt64.toNat (Option.some.inj he)
      rw [Word.toNat_ofNat (by omega)] at hword
      have hnil : Header.nil.toNat = 2 ^ 64 - 1 := rfl
      omega
    | false =>
      rw [firstFree_live ht]
      exact ih (by omega)

@[simp] theorem render_nil (o : Nat) (link : Option UInt64) : render h o [] link = [] := rfl

theorem render_cons (o : Nat) (t : Tile) (ts : List Tile) (link : Option UInt64) :
    render h o (t :: ts) link =
      ⟨.ofNat o, t.header (firstFree h (o + (h + t.size)) ts link)⟩ ::
        render h (o + (h + t.size)) ts link := rfl

theorem render_append (o : Nat) (as bs : List Tile) (link : Option UInt64) :
    render h o (as ++ bs) link =
      render h o as (firstFree h (o + span h as) bs link) ++ render h (o + span h as) bs link := by
  induction as generalizing o with
  | nil => simp
  | cons a as ih =>
    rw [List.cons_append, render_cons, render_cons, ih, firstFree_append, span_cons,
      List.cons_append, Nat.add_assoc]

theorem map_isFree_render (o : Nat) (ts : List Tile) (link : Option UInt64) :
    (render h o ts link).map (·.header.isFree) = ts.map Tile.free := by
  induction ts generalizing o with
  | nil => rfl
  | cons t ts ih => rw [render_cons, List.map_cons, ih, List.map_cons, Tile.isFree_header]

theorem render_of_live {ts : List Tile} (hl : ∀ t ∈ ts, t.free = false) (o : Nat)
    (link link' : Option UInt64) : render h o ts link = render h o ts link' := by
  induction ts generalizing o with
  | nil => rfl
  | cons t ts ih =>
    have ht := hl t List.mem_cons_self
    rw [render_cons, render_cons, Tile.header_live ht, Tile.header_live ht,
      ih fun u hu => hl u (List.mem_cons_of_mem _ hu)]

theorem mem_render {o : Nat} {ts : List Tile} {link : Option UInt64} {b : Block}
    (hb : b ∈ render h o ts link) : ∃ pre t post, ts = pre ++ t :: post ∧
      b = ⟨.ofNat (o + span h pre), t.header (firstFree h (o + span h pre + (h + t.size)) post link)⟩ := by
  induction ts generalizing o with
  | nil => cases hb
  | cons t ts ih =>
    rw [render_cons, List.mem_cons] at hb
    rcases hb with rfl | hb
    · exact ⟨[], t, ts, rfl, rfl⟩
    · obtain ⟨pre, u, post, rfl, rfl⟩ := ih hb
      refine ⟨t :: pre, u, post, rfl, ?_⟩
      rw [span_cons, Nat.add_assoc o]

theorem mem_render_mid (o : Nat) (pre : List Tile) (t : Tile) (post : List Tile) (link : Option UInt64) :
    ⟨.ofNat (o + span h pre), t.header (firstFree h (o + span h pre + (h + t.size)) post link)⟩ ∈
      render h o (pre ++ t :: post) link := by
  rw [render_append, render_cons]
  exact List.mem_append_right _ List.mem_cons_self

theorem render_pairwise {o : Nat} {ts : List Tile} {link : Option UInt64} (hend : o + span h ts < 2 ^ 64) :
    (render h o ts link).Pairwise fun b c => b.offset.toNat + (h + b.size.toNat) ≤ c.offset.toNat := by
  induction ts generalizing o with
  | nil => exact List.Pairwise.nil
  | cons t ts ih =>
    rw [span_cons] at hend
    rw [render_cons]
    refine List.pairwise_cons.mpr ⟨?_, ih (by omega)⟩
    intro c hc
    obtain ⟨pre, u, post, rfl, rfl⟩ := mem_render hc
    rw [span_append, span_cons] at hend
    simp only [Block.size, Tile.size_header]
    rw [Word.toNat_ofNat (by omega), Word.toNat_ofNat (by omega), Word.toNat_ofNat (by omega)]
    omega

/-! ## Free blocks -/

@[simp] theorem frees_nil (o : Nat) (link : Option UInt64) : frees h o [] link = [] := rfl

theorem frees_append (o : Nat) (as bs : List Tile) (link : Option UInt64) :
    frees h o (as ++ bs) link =
      frees h o as (firstFree h (o + span h as) bs link) ++ frees h (o + span h as) bs link := by
  rw [frees, render_append, List.filter_append]
  rfl

theorem frees_free {t : Tile} (ht : t.free = true) (o : Nat) (ts : List Tile) (link : Option UInt64) :
    frees h o (t :: ts) link =
      ⟨.ofNat o, .free (.ofNat t.size) (firstFree h (o + (h + t.size)) ts link)⟩ ::
        frees h (o + (h + t.size)) ts link := by
  rw [frees, render_cons, List.filter_cons_of_pos (by simp [ht]), Tile.header_free ht]
  rfl

theorem frees_live {t : Tile} (ht : t.free = false) (o : Nat) (ts : List Tile) (link : Option UInt64) :
    frees h o (t :: ts) link = frees h (o + (h + t.size)) ts link := by
  rw [frees, render_cons, List.filter_cons_of_neg (by simp [ht])]
  rfl

theorem frees_of_live {ts : List Tile} (hl : ∀ t ∈ ts, t.free = false) (o : Nat)
    (link : Option UInt64) : frees h o ts link = [] := by
  induction ts generalizing o with
  | nil => rfl
  | cons t ts ih =>
    rw [frees_live (hl t List.mem_cons_self), ih fun u hu => hl u (List.mem_cons_of_mem _ hu)]

theorem head?_frees (o : Nat) (ts : List Tile) :
    (frees h o ts none).head?.map Block.offset = firstFree h o ts none := by
  induction ts generalizing o with
  | nil => rfl
  | cons t ts ih =>
    cases ht : t.free with
    | true => rw [frees_free ht, firstFree_free ht]; rfl
    | false => rw [frees_live ht, firstFree_live ht, ih]

/-- Either no tile is free, or there is a last free one. -/
theorem last_free (ts : List Tile) : (∀ t ∈ ts, t.free = false) ∨
    ∃ pre t post, ts = pre ++ t :: post ∧ t.free = true ∧ ∀ u ∈ post, u.free = false := by
  induction ts with
  | nil => exact Or.inl (by simp)
  | cons t ts ih =>
    rcases ih with hl | ⟨pre, u, post, rfl, hu, hpost⟩
    · cases ht : t.free with
      | true => exact Or.inr ⟨[], t, ts, rfl, ht, hl⟩
      | false =>
        apply Or.inl
        intro u hu
        rcases List.mem_cons.mp hu with rfl | hu
        · exact ht
        · exact hl u hu
    · exact Or.inr ⟨t :: pre, u, post, rfl, hu, hpost⟩

/-! ## Tiles that are handed out -/

/-- The offset and the size of each tile that is handed out. -/
def live (h : Nat) : Nat → List Tile → List (Nat × Nat)
  | _, [] => []
  | o, t :: ts => if t.free then live h (o + (h + t.size)) ts else (o, t.size) :: live h (o + (h + t.size)) ts

@[simp] theorem live_nil (o : Nat) : live h o [] = [] := rfl

theorem live_free {t : Tile} (ht : t.free = true) (o : Nat) (ts : List Tile) :
    live h o (t :: ts) = live h (o + (h + t.size)) ts := if_pos ht

theorem live_live {t : Tile} (ht : t.free = false) (o : Nat) (ts : List Tile) :
    live h o (t :: ts) = (o, t.size) :: live h (o + (h + t.size)) ts := by
  rw [live, if_neg (by simp [ht])]

theorem live_append (o : Nat) (as bs : List Tile) :
    live h o (as ++ bs) = live h o as ++ live h (o + span h as) bs := by
  induction as generalizing o with
  | nil => simp
  | cons a as ih =>
    cases ha : a.free with
    | true => rw [List.cons_append, live_free ha, live_free ha, ih, span_cons, Nat.add_assoc]
    | false =>
      rw [List.cons_append, live_live ha, live_live ha, ih, span_cons, List.cons_append, Nat.add_assoc]

theorem mem_live {o : Nat} {ts : List Tile} {p : Nat × Nat} (hp : p ∈ live h o ts) :
    ∃ pre t post, ts = pre ++ t :: post ∧ t.free = false ∧ p = (o + span h pre, t.size) := by
  induction ts generalizing o with
  | nil => cases hp
  | cons t ts ih =>
    cases ht : t.free with
    | true =>
      rw [live_free ht] at hp
      obtain ⟨pre, u, post, rfl, hu, rfl⟩ := ih hp
      exact ⟨t :: pre, u, post, rfl, hu, by rw [span_cons, Nat.add_assoc o]⟩
    | false =>
      rw [live_live ht, List.mem_cons] at hp
      rcases hp with rfl | hp
      · exact ⟨[], t, ts, rfl, ht, rfl⟩
      · obtain ⟨pre, u, post, rfl, hu, rfl⟩ := ih hp
        exact ⟨t :: pre, u, post, rfl, hu, by rw [span_cons, Nat.add_assoc o]⟩

theorem filter_isAllocated_render (o : Nat) (ts : List Tile) (link : Option UInt64) :
    (render h o ts link).filter (·.header.isAllocated) =
      (live h o ts).map fun p => ⟨.ofNat p.1, .allocated (.ofNat p.2)⟩ := by
  induction ts generalizing o with
  | nil => rfl
  | cons t ts ih =>
    cases ht : t.free with
    | true => rw [render_cons, List.filter_cons_of_neg (by simp [ht]), live_free ht, ih]
    | false =>
      rw [render_cons, List.filter_cons_of_pos (by simp [ht]), live_live ht, ih, Tile.header_live ht,
        List.map_cons]

theorem length_live_le (o : Nat) (ts : List Tile) : (live h o ts).length ≤ ts.length := by
  induction ts generalizing o with
  | nil => exact Nat.le_refl 0
  | cons t ts ih =>
    have hts := ih (o + (h + t.size))
    cases ht : t.free with
    | true =>
      rw [live_free ht, List.length_cons]
      omega
    | false =>
      rw [live_live ht, List.length_cons, List.length_cons]
      omega

theorem live_pairwise (o : Nat) (ts : List Tile) :
    (live h o ts).Pairwise fun p q => p.1 + (h + p.2) ≤ q.1 := by
  induction ts generalizing o with
  | nil => exact List.Pairwise.nil
  | cons t ts ih =>
    cases ht : t.free with
    | true => rw [live_free ht]; exact ih _
    | false =>
      rw [live_live ht]
      refine List.pairwise_cons.mpr ⟨?_, ih _⟩
      intro q hq
      obtain ⟨pre, u, post, rfl, -, rfl⟩ := mem_live hq
      exact Nat.le_add_right _ _

theorem live_nodup (hh : 0 < h) (ts : List Tile) : (live h 0 ts).Nodup := by
  apply (live_pairwise 0 ts).imp
  intro p q hle he
  rw [he] at hle
  omega

theorem not_mem_of_perm {ts : List Tile} {p : Nat × Nat} {rest : List (Nat × Nat)} (hh : 0 < h)
    (hperm : (live h 0 ts).Perm (p :: rest)) : p ∉ rest :=
  (List.nodup_cons.mp (hperm.nodup_iff.mp (live_nodup hh ts))).1

/-! ## Proper tilings -/

/-- Sizes are positive and on the grid, and no two free tiles are neighbours. -/
structure Proper (g : Geometry) (ts : List Tile) : Prop where
  grid : ∀ t ∈ ts, g.grid ∣ t.size
  pos : ∀ t ∈ ts, 0 < t.size
  apart : ts.IsChain fun a b => ¬(a.free = true ∧ b.free = true)

variable {g : Geometry} {ts : List Tile}

theorem Proper.grid_le (hp : Proper g ts) {t : Tile} (ht : t ∈ ts) : g.grid ≤ t.size :=
  Nat.le_of_dvd (hp.pos t ht) (hp.grid t ht)

theorem dvd_span (hgrid : ∀ t ∈ ts, g.grid ∣ t.size) : g.grid ∣ span g.front ts := by
  induction ts with
  | nil => exact Nat.dvd_zero _
  | cons t ts ih =>
    have ht := hgrid t List.mem_cons_self
    have hts := ih fun u hu => hgrid u (List.mem_cons_of_mem _ hu)
    exact Nat.dvd_add (Nat.dvd_add g.front_dvd ht) hts

theorem length_mul_le (hgrid : ∀ t ∈ ts, g.grid ≤ t.size) :
    ts.length * (g.front + g.grid) ≤ span g.front ts := by
  induction ts with
  | nil => simp
  | cons t ts ih =>
    have ht := hgrid t List.mem_cons_self
    have hts := ih fun u hu => hgrid u (List.mem_cons_of_mem _ hu)
    rw [List.length_cons, Nat.succ_mul, span_cons]
    omega

end Tiling

end ArenaHeap
