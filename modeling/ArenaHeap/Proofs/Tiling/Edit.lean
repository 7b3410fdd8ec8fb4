import ArenaHeap.Proofs.Tiling.Basic

/-!
# Edits of tilings

* `carve` : the tiles that a block of `size` bytes becomes when `n` of them are handed out;
* `freed` : a tiling after a tile became free and merged with its free neighbours;
* `canonical` : the tiling in which each gap between tiles that are handed out is one free tile;
* `span_carve`, `live_carve`, `Proper.carve`, `live_freed`, `Proper.freed` : what the
  edits do to the span, to the tiles that are handed out, and that they keep a tiling proper;
* `freed_covers`, `countP_freed` : the free tiles after a tile became free;
* `eq_canonical` : a proper tiling is the canonical one of its tiles that are handed out.
-/

namespace ArenaHeap

namespace Tiling

variable {g : Geometry} {h : Nat} {ts pre post : List Tile}

/-! ## Parts of proper tilings -/

theorem Proper.left (hp : Proper g (pre ++ post)) : Proper g pre :=
  ⟨fun t ht => hp.grid t (List.mem_append_left _ ht), fun t ht => hp.pos t (List.mem_append_left _ ht),
    hp.apart.left_of_append⟩

theorem Proper.right (hp : Proper g (pre ++ post)) : Proper g post :=
  ⟨fun t ht => hp.grid t (List.mem_append_right _ ht), fun t ht => hp.pos t (List.mem_append_right _ ht),
    hp.apart.right_of_append⟩

theorem Proper.tail {t : Tile} (hp : Proper g (t :: post)) : Proper g post := @Proper.right g [t] post hp

theorem Proper.append (hpre : Proper g pre) (hpost : Proper g post)
    (hseam : ∀ a ∈ pre.getLast?, ∀ b ∈ post.head?, ¬(a.free = true ∧ b.free = true)) :
    Proper g (pre ++ post) := by
  refine ⟨?_, ?_, List.isChain_append.mpr ⟨hpre.apart, hpost.apart, hseam⟩⟩
  · intro t ht
    exact (List.mem_append.mp ht).elim (hpre.grid t) (hpost.grid t)
  · intro t ht
    exact (List.mem_append.mp ht).elim (hpre.pos t) (hpost.pos t)

theorem proper_singleton {t : Tile} (hgrid : g.grid ∣ t.size) (hpos : 0 < t.size) : Proper g [t] :=
  ⟨List.forall_mem_singleton.mpr hgrid, List.forall_mem_singleton.mpr hpos, List.isChain_singleton t⟩

theorem Proper.cons {t : Tile} (hgrid : g.grid ∣ t.size) (hpos : 0 < t.size) (hpost : Proper g post)
    (hseam : ∀ u ∈ post.head?, ¬(t.free = true ∧ u.free = true)) : Proper g (t :: post) := by
  apply @Proper.append g [t] post (proper_singleton hgrid hpos) hpost
  intro a ha u hu
  rw [← Option.mem_some_iff.mp ha]
  exact hseam u hu

theorem Proper.head_live {t u : Tile} (hp : Proper g (t :: post)) (ht : t.free = true)
    (hu : u ∈ post.head?) : u.free = false := by
  obtain ⟨rest, rfl⟩ : ∃ rest, post = u :: rest := by
    cases post with
    | nil => cases hu
    | cons x rest => exact ⟨rest, by rw [Option.mem_some_iff.mp hu]⟩
  have hne := (List.isChain_cons_cons.mp hp.apart).1
  exact Bool.eq_false_iff.mpr fun hfree => hne ⟨ht, hfree⟩

theorem Proper.last_live {t u : Tile} (hp : Proper g (pre ++ t :: post)) (ht : t.free = true)
    (hu : u ∈ pre.getLast?) : u.free = false := by
  have hne := (List.isChain_append.mp hp.apart).2.2 u hu t (by simp)
  exact Bool.eq_false_iff.mpr fun hfree => hne ⟨hfree, ht⟩

/-! ## Handing out -/

/-- The tiles that `size` usable bytes become when `n` of them are handed out: the rest stays free if
it holds a header and a least block. -/
def carve (g : Geometry) (size n : Nat) : List Tile :=
  if g.front + g.least ≤ size - n then [⟨n, false⟩, ⟨size - n - g.front, true⟩] else [⟨size, false⟩]

/-- The usable bytes of the block that `carve` hands out. -/
def granted (g : Geometry) (size n : Nat) : Nat :=
  if g.front + g.least ≤ size - n then n else size

theorem span_carve {size n : Nat} (hn : n ≤ size) : span g.front (carve g size n) = g.front + size := by
  unfold carve
  split <;> simp only [span_cons, span_nil] <;> omega

theorem live_carve (o size n : Nat) : live h o (carve g size n) = [(o, granted g size n)] := by
  unfold carve granted
  split <;> simp [live]

theorem le_granted {size n : Nat} (hn : n ≤ size) : n ≤ granted g size n := by
  unfold granted
  split <;> omega

theorem granted_le {size n : Nat} (hn : n ≤ size) : granted g size n ≤ size := by
  unfold granted
  split <;> omega

theorem carve_eq (g : Geometry) (size n : Nat) :
    ∃ rest, carve g size n = ⟨granted g size n, false⟩ :: rest ∧ ∀ u ∈ rest, u.free = true := by
  unfold carve granted
  split
  · exact ⟨_, rfl, by simp⟩
  · exact ⟨_, rfl, by simp⟩

section Exact

variable (hg : g.Exact)
include hg

theorem proper_carve {size n : Nat} (hsize : g.grid ∣ size) (hn : g.grid ∣ n) (hpos : 0 < n) (hle : n ≤ size) :
    Proper g (carve g size n) := by
  have hleast := Geometry.least_pos hg
  unfold carve
  split
  · have hrest : g.grid ∣ size - n - g.front := Nat.dvd_sub (Nat.dvd_sub hsize hn) g.front_dvd
    refine Proper.cons hn hpos (proper_singleton hrest ?_) (by simp)
    show 0 < size - n - g.front
    omega
  · exact proper_singleton hsize (by change 0 < size; omega)

/-- Handing out a part of what reaches up to the end of a free tile `u` keeps a tiling proper. -/
theorem Proper.carve {u : Tile} {size n : Nat} (hpre : Proper g pre) (hpost : Proper g (u :: post))
    (hu : u.free = true) (hsize : g.grid ∣ size) (hn : g.grid ∣ n) (hpos : 0 < n) (hle : n ≤ size) :
    Proper g (pre ++ (Tiling.carve g size n ++ post)) := by
  obtain ⟨rest, hcarve, -⟩ := carve_eq g size n
  refine hpre.append ((proper_carve hg hsize hn hpos hle).append hpost.tail ?_) ?_
  · intro a _ b hb
    rw [hpost.head_live hu hb]
    simp
  · intro a _ b hb
    rw [hcarve] at hb
    rw [← Option.mem_some_iff.mp hb]
    simp

/-- A tile that swallows the free one behind it and is carved then keeps a tiling proper. -/
theorem Proper.swallow {t : Tile} {m n : Nat} (hp : Proper g (pre ++ t :: ⟨m, true⟩ :: post)) (hn : g.grid ∣ n)
    (hpos : 0 < n) (hle : n ≤ t.size + g.front + m) :
    Proper g (pre ++ (Tiling.carve g (t.size + g.front + m) n ++ post)) := by
  have hsize : g.grid ∣ t.size + g.front + m :=
    Nat.dvd_add (Nat.dvd_add (hp.grid t (by simp)) g.front_dvd) (hp.grid ⟨m, true⟩ (by simp))
  exact Proper.carve hg hp.left hp.right.tail rfl hsize hn hpos hle

end Exact

/-! ## Taking back -/

/-- `n` usable bytes in front of some tiles, together with the first of them if it is free. -/
def joinNext (h n : Nat) : List Tile → Nat × List Tile
  | ⟨m, true⟩ :: post => (n + h + m, post)
  | post => (n, post)

/-- `n` usable bytes behind some tiles, together with the last of them if it is free. -/
def joinPrevious (h : Nat) (pre : List Tile) (n : Nat) : List Tile × Nat :=
  match pre.getLast? with
  | some ⟨m, true⟩ => (pre.dropLast, m + h + n)
  | _ => (pre, n)

/-- The tiles after a tile of `n` usable bytes between `pre` and `post` became free. -/
def freed (h : Nat) (pre : List Tile) (n : Nat) (post : List Tile) : List Tile :=
  let (size, behind) := joinNext h n post
  let (before, size) := joinPrevious h pre size
  before ++ ⟨size, true⟩ :: behind

theorem freed_eq (h : Nat) (pre : List Tile) (n : Nat) (post : List Tile) :
    freed h pre n post = (joinPrevious h pre (joinNext h n post).1).1 ++
      ⟨(joinPrevious h pre (joinNext h n post).1).2, true⟩ :: (joinNext h n post).2 := rfl

theorem joinNext_cases (h n : Nat) (post : List Tile) :
    (∃ m rest, post = ⟨m, true⟩ :: rest ∧ joinNext h n post = (n + h + m, rest)) ∨
      (∀ u ∈ post.head?, u.free = false) ∧ joinNext h n post = (n, post) := by
  match post with
  | [] => exact Or.inr ⟨by simp, rfl⟩
  | ⟨m, true⟩ :: rest => exact Or.inl ⟨m, rest, rfl, rfl⟩
  | ⟨m, false⟩ :: rest => exact Or.inr ⟨by simp, rfl⟩

theorem joinPrevious_cases (h : Nat) (pre : List Tile) (n : Nat) :
    (∃ m rest, pre = rest ++ [⟨m, true⟩] ∧ joinPrevious h pre n = (rest, m + h + n)) ∨
      (∀ u ∈ pre.getLast?, u.free = false) ∧ joinPrevious h pre n = (pre, n) := by
  rcases List.eq_nil_or_concat pre with rfl | ⟨rest, ⟨m, _ | _⟩, rfl⟩
  · exact Or.inr ⟨by simp, rfl⟩
  · exact Or.inr ⟨by simp, by simp [joinPrevious]⟩
  · exact Or.inl ⟨m, rest, by simp, by simp [joinPrevious]⟩

theorem joinNext_same (h o n : Nat) (post : List Tile) :
    (joinNext h n post).1 + span h (joinNext h n post).2 = n + span h post ∧
      live h (o + (h + (joinNext h n post).1)) (joinNext h n post).2 = live h (o + (h + n)) post := by
  rcases joinNext_cases h n post with ⟨m, rest, rfl, he⟩ | ⟨-, he⟩
  · have hseam : o + (h + (n + h + m)) = o + (h + n) + (h + m) := by omega
    rw [he, live_free rfl, hseam]
    refine ⟨?_, rfl⟩
    simp only [span_cons]
    omega
  · rw [he]
    exact ⟨rfl, rfl⟩

theorem joinPrevious_same (h : Nat) (pre : List Tile) (n : Nat) :
    span h (joinPrevious h pre n).1 + (joinPrevious h pre n).2 = span h pre + n ∧
      live h 0 (joinPrevious h pre n).1 = live h 0 pre := by
  rcases joinPrevious_cases h pre n with ⟨m, rest, rfl, he⟩ | ⟨-, he⟩
  · rw [he, live_append, live_free rfl]
    refine ⟨?_, by simp⟩
    simp only [span_append, span_cons, span_nil]
    omega
  · rw [he]
    exact ⟨rfl, rfl⟩

/-- What is left in front and behind is a part of the tiling. -/
theorem joined_split (h : Nat) (pre : List Tile) (t : Tile) (post : List Tile) :
    ∃ mid, pre ++ t :: post = (joinPrevious h pre (joinNext h t.size post).1).1 ++
      (mid ++ (joinNext h t.size post).2) := by
  have hnext : ∃ mid, post = mid ++ (joinNext h t.size post).2 := by
    rcases joinNext_cases h t.size post with ⟨m, rest, rfl, he⟩ | ⟨-, he⟩
    · exact ⟨[⟨m, true⟩], by rw [he]; rfl⟩
    · exact ⟨[], by rw [he]; rfl⟩
  obtain ⟨mid, hmid⟩ := hnext
  rcases joinPrevious_cases h pre (joinNext h t.size post).1 with ⟨m, rest, rfl, he⟩ | ⟨-, he⟩
  · refine ⟨⟨m, true⟩ :: t :: mid, ?_⟩
    rw [he]
    simp [← hmid]
  · refine ⟨t :: mid, ?_⟩
    rw [he]
    simp [← hmid]

theorem live_freed (h : Nat) (pre : List Tile) (n : Nat) (post : List Tile) :
    live h 0 (freed h pre n post) = live h 0 pre ++ live h (span h pre + (h + n)) post := by
  obtain ⟨hspan, hlive⟩ := joinPrevious_same h pre (joinNext h n post).1
  have hseam : 0 + span h (joinPrevious h pre (joinNext h n post).1).1 +
      (h + (joinPrevious h pre (joinNext h n post).1).2) = span h pre + (h + (joinNext h n post).1) := by
    omega
  rw [freed_eq, live_append, live_free rfl, hseam, hlive, (joinNext_same h _ n post).2]

theorem live_freed_perm {t : Tile} (ht : t.free = false) : (live h 0 (pre ++ t :: post)).Perm
    ((span h pre, t.size) :: live h 0 (freed h pre t.size post)) := by
  rw [live_freed, live_append, live_live ht, Nat.zero_add]
  exact List.perm_middle

theorem proper_joinNext {n : Nat} (hgrid : g.grid ∣ n) (hpos : 0 < n) (hpost : Proper g post) :
    Proper g (⟨(joinNext g.front n post).1, true⟩ :: (joinNext g.front n post).2) := by
  rcases joinNext_cases g.front n post with ⟨m, rest, rfl, he⟩ | ⟨hhead, he⟩
  · have hm : g.grid ∣ m := hpost.grid _ List.mem_cons_self
    rw [he]
    refine Proper.cons (Nat.dvd_add (Nat.dvd_add hgrid g.front_dvd) hm) ?_ hpost.tail ?_
    · show 0 < n + g.front + m
      omega
    · intro u hu
      rw [hpost.head_live rfl hu]
      simp
  · rw [he]
    apply Proper.cons hgrid hpos hpost
    intro u hu
    rw [hhead u hu]
    simp

/-- Taking a tile back keeps a tiling proper: it merges with both its free neighbours. -/
theorem Proper.freed {t : Tile} (hp : Proper g (pre ++ t :: post)) :
    Proper g (Tiling.freed g.front pre t.size post) := by
  have hgrid := hp.grid t (by simp)
  have hpos := hp.pos t (by simp)
  have hnext := proper_joinNext hgrid hpos hp.right.tail
  rw [freed_eq]
  rcases joinPrevious_cases g.front pre (joinNext g.front t.size post).1 with
    ⟨m, rest, rfl, he⟩ | ⟨hlast, he⟩
  · have hm : g.grid ∣ m := hp.left.grid ⟨m, true⟩ (by simp)
    have hn := hnext.grid _ List.mem_cons_self
    rw [he]
    refine hp.left.left.append (Proper.cons ?_ ?_ hnext.tail ?_) ?_
    · exact Nat.dvd_add (Nat.dvd_add hm g.front_dvd) hn
    · exact Nat.add_pos_right _ (hnext.pos _ List.mem_cons_self)
    · intro u hu
      rw [hnext.head_live rfl hu]
      simp
    · intro a ha b _
      rw [hp.left.last_live rfl ha]
      simp
  · rw [he]
    apply hp.left.append hnext
    intro a ha b _
    rw [hlast a ha]
    simp

theorem le_joinNext (h n : Nat) (post : List Tile) : n ≤ (joinNext h n post).1 := by
  rcases joinNext_cases h n post with ⟨m, rest, -, he⟩ | ⟨-, he⟩
  · rw [he, Nat.add_assoc]
    exact Nat.le_add_right _ _
  · rw [he]

theorem le_joinPrevious (h : Nat) (pre : List Tile) (n : Nat) : n ≤ (joinPrevious h pre n).2 := by
  rcases joinPrevious_cases h pre n with ⟨m, rest, -, he⟩ | ⟨-, he⟩
  · rw [he]
    exact Nat.le_add_left _ _
  · rw [he]

theorem joinNext_covers (h n : Nat) {p q : List Tile} {u : Tile} (hu : u.free = true) :
    u.size ≤ (joinNext h n (p ++ u :: q)).1 ∨ ∃ mid, (joinNext h n (p ++ u :: q)).2 = mid ++ u :: q ∧
      (joinNext h n (p ++ u :: q)).1 + span h mid = n + span h p := by
  rcases joinNext_cases h n (p ++ u :: q) with ⟨m, rest, hpost, he⟩ | ⟨-, he⟩
  · rw [he]
    cases p with
    | nil =>
      obtain ⟨rfl, rfl⟩ := List.cons.inj hpost
      exact Or.inl (Nat.le_add_left _ _)
    | cons x p =>
      obtain ⟨rfl, rfl⟩ := List.cons.inj hpost
      refine Or.inr ⟨p, rfl, ?_⟩
      simp only [span_cons]
      omega
  · rw [he]
    exact Or.inr ⟨p, rfl, rfl⟩

theorem joinPrevious_covers (h n : Nat) (p q : List Tile) (u : Tile) :
    ((joinPrevious h (p ++ u :: q) n).1 = p ∧ u.size ≤ (joinPrevious h (p ++ u :: q) n).2) ∨
      ∃ mid, (joinPrevious h (p ++ u :: q) n).1 = p ++ u :: mid := by
  rcases joinPrevious_cases h (p ++ u :: q) n with ⟨m, rest, hpre, he⟩ | ⟨-, he⟩
  · rw [he]
    rcases List.eq_nil_or_concat' q with rfl | ⟨q, x, rfl⟩
    · obtain ⟨rfl, hx⟩ := List.append_inj' hpre rfl
      cases hx
      refine Or.inl ⟨rfl, ?_⟩
      simp only
      omega
    · rw [← List.cons_append, ← List.append_assoc] at hpre
      obtain ⟨rfl, -⟩ := List.append_inj' hpre rfl
      exact Or.inr ⟨q, rfl⟩
  · rw [he]
    exact Or.inr ⟨q, rfl⟩

/-- What was free is inside what is free after, at no lower offset, and so is what became free. -/
theorem freed_covers {t u : Tile} {p q : List Tile} (hsplit : pre ++ t :: post = p ++ u :: q)
    (hu : u.free = true ∨ p = pre) : ∃ p' v q', freed h pre t.size post = p' ++ v :: q' ∧ v.free = true ∧
      span h p' ≤ span h p ∧ u.size ≤ v.size := by
  have hprevSpan := (joinPrevious_same h pre (joinNext h t.size post).1).1
  have hnextSpan := (joinNext_same h 0 t.size post).1
  have hnext := le_joinNext h t.size post
  have hprev := le_joinPrevious h pre (joinNext h t.size post).1
  rw [freed_eq]
  rcases split_cases hsplit with ⟨rfl, rfl, rfl⟩ | ⟨mid, rfl, rfl⟩ | ⟨mid, rfl, rfl⟩
  · exact ⟨_, _, _, rfl, rfl, by omega, hnext.trans hprev⟩
  · have hfree := hu.resolve_right (by simp)
    rcases joinNext_covers h t.size hfree with hinside | ⟨mid', hbehind, hspan⟩
    · refine ⟨_, _, _, rfl, rfl, ?_, hinside.trans hprev⟩
      rw [span_append]
      omega
    · rw [hbehind, ← List.cons_append, ← List.append_assoc]
      refine ⟨_, u, q, rfl, hfree, ?_, Nat.le_refl _⟩
      simp only [span_append, span_cons]
      omega
  · have hfree := hu.resolve_right (by simp)
    rcases joinPrevious_covers h (joinNext h t.size post).1 p mid u with ⟨hfront, hinside⟩ | ⟨mid', hfront⟩
    · exact ⟨_, _, _, rfl, rfl, by rw [hfront], hinside⟩
    · rw [hfront, List.append_assoc, List.cons_append]
      exact ⟨p, u, _, rfl, hfree, Nat.le_refl _, Nat.le_refl _⟩

/-- The number of elements of a kind right in front of a place and right behind it. -/
def countBeside {α : Type} (kind : α → Bool) (below above : List α) : Nat :=
  (below.getLast?.toList ++ above.head?.toList).countP kind

theorem countBeside_le {α : Type} (kind : α → Bool) (below above : List α) : countBeside kind below above ≤ 2 := by
  have hone (o : Option α) : o.toList.length ≤ 1 := by cases o <;> simp
  have hbelow := hone below.getLast?
  have habove := hone above.head?
  have hcount : countBeside kind below above ≤ _ := List.countP_le_length
  rw [List.length_append] at hcount
  omega

theorem countBeside_map_id {α : Type} (kind : α → Bool) (below above : List α) :
    countBeside id (below.map kind) (above.map kind) = countBeside kind below above := by
  unfold countBeside
  rw [List.getLast?_map, List.head?_map, Option.toList_map, Option.toList_map, ← List.map_append, List.countP_map]
  rfl

theorem countBeside_congr {α β : Type} {kind : α → Bool} {kind' : β → Bool} {below above : List α}
    {below' above' : List β} (hbelow : below.map kind = below'.map kind')
    (habove : above.map kind = above'.map kind') :
    countBeside kind below above = countBeside kind' below' above' := by
  rw [← countBeside_map_id, hbelow, habove, countBeside_map_id]

/-- A tile that becomes free is one more of them, less those that it merges with. -/
theorem countP_freed (h : Nat) (pre : List Tile) (n : Nat) (post : List Tile) :
    (freed h pre n post).countP Tile.free + countBeside Tile.free pre post =
      pre.countP Tile.free + post.countP Tile.free + 1 := by
  have hnext : (joinNext h n post).2.countP Tile.free + post.head?.toList.countP Tile.free =
      post.countP Tile.free := by
    rcases joinNext_cases h n post with ⟨m, rest, rfl, he⟩ | ⟨hhead, he⟩
    · rw [he, List.countP_cons_of_pos rfl]
      rfl
    · have hnone : post.head?.toList.countP Tile.free = 0 := List.countP_eq_zero.mpr fun u hu => by
        rw [hhead u (Option.mem_toList.mp hu)]
        exact Bool.false_ne_true
      rw [he, hnone, Nat.add_zero]
  have hprev : (joinPrevious h pre (joinNext h n post).1).1.countP Tile.free +
      pre.getLast?.toList.countP Tile.free = pre.countP Tile.free := by
    rcases joinPrevious_cases h pre (joinNext h n post).1 with ⟨m, rest, rfl, he⟩ | ⟨hlast, he⟩
    · rw [he, List.getLast?_concat, List.countP_append]
      rfl
    · have hnone : pre.getLast?.toList.countP Tile.free = 0 := List.countP_eq_zero.mpr fun u hu => by
        rw [hlast u (Option.mem_toList.mp hu)]
        exact Bool.false_ne_true
      rw [he, hnone, Nat.add_zero]
  rw [freed_eq, countBeside, List.countP_append, List.countP_append, List.countP_cons_of_pos rfl]
  omega

/-! ## The canonical tiling -/

/-- The tiles from `o` to `stop` in which exactly those of `lives` are handed out, and each gap in
front of, between or behind them is one free tile. -/
def canonical (h stop : Nat) : Nat → List (Nat × Nat) → List Tile
  | o, [] => if o < stop then [⟨stop - o - h, true⟩] else []
  | o, (p, n) :: lives =>
    (if o < p then [⟨p - o - h, true⟩] else []) ++ ⟨n, false⟩ :: canonical h stop (p + (h + n)) lives

theorem canonical_free {m o stop : Nat} (hm : 0 < m) (hhead : ∀ u ∈ ts.head?, u.free = false)
    (hstop : o + (h + m) + span h ts = stop) :
    canonical h stop o (live h (o + (h + m)) ts) =
      ⟨m, true⟩ :: canonical h stop (o + (h + m)) (live h (o + (h + m)) ts) := by
  have hgap : o + (h + m) - o - h = m := by omega
  cases ts with
  | nil =>
    rw [span_nil] at hstop
    rw [live_nil, canonical, canonical, if_pos (by omega), if_neg (by omega), ← hstop, Nat.add_zero,
      hgap]
  | cons u ts =>
    rw [live_live (hhead u rfl), canonical, canonical, if_pos (by omega), if_neg (by omega), hgap]
    rfl

/-- A proper tiling is the canonical one of its tiles that are handed out. -/
theorem eq_canonical {o stop : Nat} (hp : Proper g ts) (hstop : o + span h ts = stop) :
    ts = canonical h stop o (live h o ts) := by
  -- A free tile is a gap by itself, since no free tile follows it; a tile that is handed out has no gap
  -- in front of it.
  induction ts generalizing o with
  | nil => rw [live_nil, canonical, if_neg (by simp at hstop; omega)]
  | cons t ts ih =>
    have hrest := ih (o := o + (h + t.size)) hp.tail (by rw [span_cons] at hstop; omega)
    obtain ⟨m, _ | _⟩ := t
    · rw [live_live rfl, canonical, if_neg (by omega), List.nil_append, ← hrest]
    · rw [live_free rfl, canonical_free (hp.pos _ List.mem_cons_self)
        (fun u hu => hp.head_live rfl hu) (by rw [span_cons] at hstop; omega), ← hrest]

end Tiling

end ArenaHeap
