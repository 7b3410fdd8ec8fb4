import ArenaHeap.Proofs.Chains.Calls

/-!
# Arenas stay where they are

Whatever is in memory, and whatever tokens and references it is given, no operation but `init` and `deinit`
moves an arena or asks its store for anything.

* `BlockSpace.place` : where an arena starts, and its layout; the operations of spaces keep it;
* `Allocator.acquire_stays`, `release_stays`, `resize_stays`, `write_stays` : so do those of allocators;
* `NodeList.answer_stays` : and every call of a list.
-/

namespace ArenaHeap

namespace BlockSpace

variable {g : Geometry} {s s' : BlockSpace g} {offset size usable : UInt64}

/-- Where the arena of a space starts, and its layout. -/
def place (s : BlockSpace g) : UInt64 × Layout := (s.arena.base, s.arena.layout)

@[simp] theorem place_write (s : BlockSpace g) (b : Block) : (s.write b).place = s.place := by
  rw [place, base_write, layout_write, place]

@[simp] theorem place_redirect (s : BlockSpace g) (previous next : Option UInt64) :
    (s.redirect previous next).place = s.place := by
  cases previous with
  | none => rfl
  | some offset => exact place_write s _

@[simp] theorem place_handOut (s : BlockSpace g) (b : Block) (size : UInt64) :
    (s.handOut b size).1.place = s.place := by
  unfold handOut
  simp only
  split
  · rw [place_write, place_write]
  · rw [place_write]

theorem place_firstFit (h : s.firstFit size = some (offset, s')) : s'.place = s.place := by
  unfold firstFit at h
  simp only at h
  split at h
  · cases h
  · obtain ⟨-, rfl⟩ := Prod.mk.inj (Option.some.inj h)
    exact (place_redirect _ _ _).trans (place_handOut _ _ _)

@[simp] theorem place_reclaim (s : BlockSpace g) (offset : UInt64) : (s.reclaim offset).place = s.place := by
  unfold reclaim
  exact (place_redirect _ _ _).trans (place_write _ _)

theorem place_extend (h : s.extend offset size = some (usable, s')) : s'.place = s.place := by
  unfold extend at h
  simp only at h
  split at h
  · obtain ⟨-, rfl⟩ := Prod.mk.inj (Option.some.inj h)
    rfl
  split at h
  · cases h
  split at h
  · cases h
  · obtain ⟨-, rfl⟩ := Prod.mk.inj (Option.some.inj h)
    exact (place_redirect _ _ _).trans (place_handOut _ _ _)

end BlockSpace

namespace Allocator

variable {g : Geometry} {a a' a'' : Allocator g} {s s' : BlockSpace g} {t : Token}

theorem Stays.refl (a : Allocator g) : a.Stays a := ⟨rfl, rfl⟩

theorem Stays.trans (h : a.Stays a') (h' : a'.Stays a'') : a.Stays a'' :=
  ⟨h'.store.trans h.store, h'.extent.trans h.extent⟩

theorem stays_of_place (store : BackingStore) (h : s'.place = s.place) :
    Stays ⟨store, some s⟩ ⟨store, some s'⟩ := ⟨rfl, congrArg some h⟩

theorem acquire_stays (a : Allocator g) (size : UInt64) : a.Stays (a.acquire size).2 := by
  obtain ⟨store, _ | s⟩ := a
  · exact .refl _
  · simp only [acquire]
    split
    · exact .refl _
    split
    · exact .refl _
    · exact stays_of_place store (BlockSpace.place_firstFit ‹_›)

theorem release_stays (a : Allocator g) (t : Token) : a.Stays (a.release t).2 := by
  obtain ⟨store, _ | s⟩ := a
  · exact .refl _
  · simp only [release]
    split
    · exact .refl _
    · exact stays_of_place store (s.place_reclaim _)

theorem place_move {offset size aligned : UInt64} {moved : Token}
    (h : move s t offset size aligned = some (moved, s')) : s'.place = s.place := by
  unfold move at h
  split at h
  · cases h
  · rename_i target s₁ hfirst
    obtain ⟨-, rfl⟩ := Prod.mk.inj (Option.some.inj h)
    have hplace : s₁.place = s.place := BlockSpace.place_firstFit hfirst
    exact (BlockSpace.place_reclaim _ _).trans hplace

theorem resize_stays (a : Allocator g) (t? : Option Token) (size : UInt64) : a.Stays (a.resize t? size).2 := by
  cases t? with
  | none =>
    have hstays := a.acquire_stays size
    simp only [resize]
    split
    all_goals
      rename_i he
      rw [he] at hstays
      exact hstays
  | some t =>
    by_cases hsize : size = 0
    · have hstays := a.release_stays t
      simp only [resize, if_pos hsize]
      split
      all_goals
        rename_i he
        rw [he] at hstays
        exact hstays
    obtain ⟨store, _ | s⟩ := a
    · simp only [resize, if_neg hsize]
      exact .refl _
    · simp only [resize, if_neg hsize]
      split
      · exact .refl _
      split
      · exact .refl _
      split
      · exact stays_of_place store (BlockSpace.place_extend ‹_›)
      split
      · exact .refl _
      · exact stays_of_place store (place_move ‹_›)

theorem write_stays (a : Allocator g) (address : UInt64) (bytes : List UInt8) :
    a.Stays (a.write address bytes) := by
  obtain ⟨store, _ | s⟩ := a
  · exact .refl _
  · exact stays_of_place store rfl

end Allocator

/-! ## Nodes -/

namespace Host

variable {g : Geometry}

theorem place_stays (h : Host g) (value : Int32) : h.allocator.Stays (h.place value).2.allocator := by
  have hstays := h.allocator.acquire_stays Node.byteSize
  unfold place
  split
  all_goals
    rename_i he
    rw [he] at hstays
  · exact hstays
  · exact hstays.trans (Allocator.write_stays _ _ _)

theorem dispose_stays (h : Host g) (address : UInt64) : h.allocator.Stays (h.dispose address).allocator := by
  have hstays := h.allocator.release_stays ⟨address, (h.allocator.node address).size⟩
  unfold dispose
  split
  all_goals
    rename_i he
    rw [he] at hstays
    exact hstays

theorem setLink_stays (h : Host g) (address : UInt64) (next : Option UInt64) :
    h.allocator.Stays (h.setLink address next).allocator := h.allocator.write_stays _ _

end Host

namespace NodeList

variable {g : Geometry}

theorem link_stays (l : NodeList) (h : Host g) (previous next : Option UInt64) :
    h.allocator.Stays (l.link h previous next).2.allocator := by
  cases previous with
  | none => exact .refl _
  | some address => exact h.setLink_stays address next

theorem clearFrom_stays (fuel : Nat) (cursor : Option UInt64) (h : Host g) :
    h.allocator.Stays (clearFrom fuel cursor h).allocator := by
  induction fuel generalizing cursor h with
  | zero => exact .refl _
  | succ fuel ih =>
    cases cursor with
    | none => exact .refl _
    | some address => exact ((h.setLink_stays _ _).trans (Host.dispose_stays _ _)).trans (ih _ _)

theorem insertFront_stays (l : NodeList) (h : Host g) (value : Int32) :
    h.allocator.Stays (l.insertFront h value).2.2.allocator := by
  have hstays := h.place_stays value
  unfold insertFront
  split
  all_goals
    rename_i he
    rw [he] at hstays
  · exact hstays
  · exact hstays.trans (Host.setLink_stays _ _ _)

theorem insertAfter_stays (l : NodeList) (h : Host g) (previous : Option Reference) (value : Int32) :
    h.allocator.Stays (l.insertAfter h previous value).2.2.allocator := by
  have hstays := h.place_stays value
  unfold insertAfter
  split
  · exact .refl _
  split
  all_goals
    rename_i he
    rw [he] at hstays
  · exact hstays
  split
  · exact hstays.trans (Host.dispose_stays _ _)
  · exact (hstays.trans (Host.setLink_stays _ _ _)).trans (Host.setLink_stays _ _ _)

theorem insertBefore_stays (l : NodeList) (h : Host g) (next : Option Reference) (value : Int32) :
    h.allocator.Stays (l.insertBefore h next value).2.2.allocator := by
  have hstays := h.place_stays value
  unfold insertBefore
  split
  · exact .refl _
  split
  all_goals
    rename_i he
    rw [he] at hstays
  · exact hstays
  split
  · exact hstays.trans (Host.dispose_stays _ _)
  · exact (hstays.trans (Host.setLink_stays _ _ _)).trans (link_stays _ _ _ _)

theorem delete_stays (l : NodeList) (h : Host g) (value : Int32) :
    h.allocator.Stays (l.delete h value).2.2.allocator := by
  unfold delete
  split
  · exact .refl _
  · exact (l.link_stays h _ _).trans (Host.dispose_stays _ _)

/-- No call of a list moves the arena of its host. -/
theorem answer_stays (l : NodeList) (h : Host g) (call : ListCall) :
    h.allocator.Stays (l.answer h call).2.2.allocator := by
  cases call with
  | insertFront value => exact l.insertFront_stays h value
  | insertAfter previous value => exact l.insertAfter_stays h previous value
  | insertBefore next value => exact l.insertBefore_stays h next value
  | delete value => exact l.delete_stays h value
  | clear => exact clearFrom_stays _ _ _
  | _ => exact .refl _

end NodeList

end ArenaHeap
