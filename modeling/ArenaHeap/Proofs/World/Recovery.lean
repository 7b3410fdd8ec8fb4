import ArenaHeap.Proofs.Loans.Lookup
import ArenaHeap.Proofs.World.Steps

/-!
# Addresses tell blocks

An address is good for a token if and only if it is that of a block that is handed out, whatever bytes
users wrote in front of it.

* `Allocator.survey` : what an allocator recovers on the grains of its arena;
* `Sound.survey_eq` : these are its blocks, in physical order;
* `Allocator.recover_ok_iff`, `Allocator.recover_free_iff`, `Allocator.recover_stray_iff` : what a single
  address tells;
* `Call.ends` : the calls that end the life of a token;
* `Sound.keeps_loose` : other calls leave the token with its user, or given up;
* `World.TellsAddresses` : an address tells the block that it names, and a token that was given up is
  recovered as long as its life lasts;
* `Reachable.tells_addresses` : every reachable world tells addresses.
-/

namespace ArenaHeap

open Tiling

/-! ## Grains -/

/-- A function that is defined on some numbers alone, which ascend. -/
theorem filterMap_range'_eq_map {α β : Type} {f : Nat → Option β} {index : α → Nat} {value : α → β}
    {as : List α} {start len : Nat} (hascending : as.Pairwise fun a b => index a < index b)
    (hsome : ∀ a ∈ as, start ≤ index a ∧ index a < start + len ∧ f (index a) = some (value a))
    (hnone : ∀ i, start ≤ i → i < start + len → (∀ a ∈ as, index a ≠ i) → f i = none) :
    (List.range' start len).filterMap f = as.map value := by
  induction len generalizing start as with
  | zero =>
    cases as with
    | nil => rfl
    | cons a as =>
      obtain ⟨hlo, hhi, -⟩ := hsome a List.mem_cons_self
      omega
  | succ len ih =>
    -- Either the first number is that of the first element, or it is that of none.
    by_cases hstart : ∃ a as', as = a :: as' ∧ index a = start
    · obtain ⟨a, as', rfl, rfl⟩ := hstart
      obtain ⟨hfirst, hrest⟩ := List.pairwise_cons.mp hascending
      rw [List.range'_succ, List.filterMap_cons, (hsome a List.mem_cons_self).2.2, List.map_cons, ih hrest]
      · intro b hb
        obtain ⟨-, hhi, hf⟩ := hsome b (List.mem_cons_of_mem _ hb)
        exact ⟨hfirst b hb, by omega, hf⟩
      · intro i hlo hhi hnot
        exact hnone i (by omega) (by omega) (List.forall_mem_cons.mpr ⟨by omega, hnot⟩)
    · have hlater : ∀ a ∈ as, start < index a := by
        intro a ha
        cases as with
        | nil => cases ha
        | cons b bs =>
          have hlo := (hsome b List.mem_cons_self).1
          have hne : index b ≠ start := fun he => hstart ⟨b, bs, rfl, he⟩
          rcases List.mem_cons.mp ha with rfl | ha
          · omega
          · have hlt := List.rel_of_pairwise_cons hascending ha
            omega
      have hfirst := hnone start (Nat.le_refl _) (by omega) fun a ha => by
        have hlt := hlater a ha
        omega
      rw [List.range'_succ, List.filterMap_cons, hfirst, ih hascending]
      · intro a ha
        obtain ⟨-, hhi, hf⟩ := hsome a ha
        exact ⟨hlater a ha, by omega, hf⟩
      · intro i hlo hhi hnot
        exact hnone i (by omega) (by omega) hnot

namespace BlockSpace

variable {g : Geometry} {s : BlockSpace g} {ts : List Tile} {b : Block}

theorem Sound.toNat_address_block (hs : s.Sound ts) (hb : b ∈ s.blocks) :
    (s.address b.offset).toNat = s.arena.base.toNat + (b.offset.toNat + g.front) := by
  obtain ⟨hle, -, -, hpos⟩ := hs.bounds_block hb
  have haddress := toNat_address hs.placed (show b.offset.toNat + g.front < s.capacity.toNat by omega)
  rwa [UInt64.ofNat_toNat] at haddress

/-- Each block lies a grain behind the one before, at least. -/
theorem Sound.grains (hs : s.Sound ts) :
    s.blocks.Pairwise fun b c => (b.offset.toNat + g.front) / g.grid < (c.offset.toNat + g.front) / g.grid := by
  refine hs.pairwise.imp_of_mem fun {b c} hb hc hbehind => ?_
  obtain ⟨-, hdvd, -⟩ := hs.bounds_block hb
  obtain ⟨-, hdvd', -⟩ := hs.bounds_block hc
  have hfront := g.le_front
  have hmore : b.offset.toNat + g.front < c.offset.toNat + g.front := by omega
  exact Nat.div_lt_div_of_lt_of_dvd (Nat.dvd_add hdvd' g.front_dvd) hmore

end BlockSpace

/-- What an allocator recovers on the grains of its arena: the sizes of blocks that are handed out, and
free blocks without theirs. -/
def Allocator.survey {g : Geometry} (a : Allocator g) : List (UInt64 × Option UInt64) :=
  match a.space with
  | none => []
  | some s => (List.range (s.capacity.toNat / g.grid)).filterMap fun i =>
    match a.recover (s.arena.addressOf (.ofNat (i * g.grid))) with
    | .ok t => some (t.address, some t.size)
    | .error (.doubleFree address) => some (address, none)
    | .error _ => none

/-- The blocks, free ones without their sizes. -/
def BlockSpace.outline {g : Geometry} (s : BlockSpace g) : List (UInt64 × Option UInt64) :=
  s.blocks.map fun b => (s.address b.offset, if b.header.isAllocated then some b.size else none)

theorem Allocator.survey_eq {g : Geometry} {a : Allocator g} {s : BlockSpace g} {ts : List Tile}
    (hs : a.space = some s) (hsound : s.Sound ts) : a.survey = s.outline := by
  have hcap := s.capacity_lt
  have hgrid := g.grid_pos
  unfold survey BlockSpace.outline
  simp only [hs]
  rw [List.range_eq_range']
  apply filterMap_range'_eq_map hsound.grains
  · intro b hb
    obtain ⟨hle, hdvd, -, hpos⟩ := hsound.bounds_block hb
    have hmul := Nat.div_mul_cancel (Nat.dvd_add hdvd g.front_dvd)
    have haddress : s.arena.addressOf (.ofNat (b.offset.toNat + g.front)) = s.address b.offset := by
      rw [UInt64.ofNat_add, UInt64.ofNat_toNat, ← BlockSpace.headerSize_eq, BlockSpace.address]
    have hbefore : b.offset.toNat + g.front < s.capacity.toNat := by omega
    refine ⟨Nat.zero_le _, ?_, ?_⟩
    · rw [Nat.zero_add]
      exact Nat.div_lt_div_of_lt_of_dvd hsound.grid_dvd_capacity hbefore
    · rw [hmul, haddress, recover_block hs hsound hb]
      cases b.header.isAllocated with
      | true => rfl
      | false => rfl
  · intro i _ hi hnot
    rw [Nat.zero_add] at hi
    have hin : (i + 1) * g.grid ≤ s.capacity.toNat := Nat.mul_le_of_le_div _ _ _ hi
    rw [Nat.succ_mul] at hin
    rw [recover_stray hs]
    -- Otherwise the block would start on this grain.
    intro b hb he
    refine hnot b hb (Nat.div_eq_of_eq_mul_left hgrid ?_)
    have hfits : s.arena.base.toNat + s.capacity.toNat ≤ 2 ^ 64 := hsound.placed.fits
    have haddress := hsound.toNat_address_block hb
    rw [he, Arena.addressOf, UInt64.toNat_add, Word.toNat_ofNat (by omega), Nat.mod_eq_of_lt (by omega)] at haddress
    omega

/-! ## Single addresses -/

namespace Allocator

variable {g : Geometry} {a : Allocator g} {s : BlockSpace g} {ts : List Tile} {address : UInt64} {t : Token}
  {fault : Fault}

theorem recover_ok_iff (hs : a.space = some s) (hsound : s.Sound ts) :
    a.recover address = .ok t ↔ ∃ b ∈ s.allocated, s.address b.offset = address ∧ t = ⟨address, b.size⟩ := by
  constructor
  · intro hok
    rcases recover_cases hs hsound address with ⟨b, hb, rfl, he⟩ | ⟨b, -, -, -, he⟩ | ⟨-, he⟩
    all_goals rw [he] at hok; cases hok
    exact ⟨b, hb, rfl, rfl⟩
  · rintro ⟨b, hb, rfl, rfl⟩
    obtain ⟨hmem, hallocated⟩ := List.mem_filter.mp hb
    rw [recover_block hs hsound hmem, if_pos hallocated]
    rfl

theorem recover_free_iff (hs : a.space = some s) (hsound : s.Sound ts) :
    a.recover address = .error (.doubleFree address) ↔
      ∃ b ∈ s.blocks, b.header.isFree = true ∧ s.address b.offset = address := by
  constructor
  · intro hfree
    rcases recover_cases hs hsound address with ⟨b, -, -, he⟩ | ⟨b, hb, hfree, haddress, -⟩ | ⟨-, he⟩
    · rw [he] at hfree
      cases hfree
    · exact ⟨b, hb, hfree, haddress⟩
    · rw [he] at hfree
      cases hfree
  · rintro ⟨b, hb, hfree, rfl⟩
    rw [hsound.isFree_block hb, Bool.not_eq_true'] at hfree
    rw [recover_block hs hsound hb, hfree, if_neg Bool.false_ne_true]

theorem recover_stray_iff (hs : a.space = some s) (hsound : s.Sound ts) :
    a.recover address = .error (.foreignPointer address) ↔ ∀ b ∈ s.blocks, s.address b.offset ≠ address := by
  refine ⟨fun hstray => ?_, recover_stray hs⟩
  rcases recover_cases hs hsound address with ⟨b, -, -, he⟩ | ⟨b, -, -, -, he⟩ | ⟨hnone, -⟩
  · rw [he] at hstray
    cases hstray
  · rw [he] at hstray
    cases hstray
  · exact hnone

theorem recover_error (hs : a.space = some s) (hsound : s.Sound ts) (h : a.recover address = .error fault) :
    fault = .doubleFree address ∨ fault = .foreignPointer address := by
  rcases recover_cases hs hsound address with ⟨b, -, -, he⟩ | ⟨b, -, -, -, he⟩ | ⟨-, he⟩
  all_goals rw [he] at h; cases h
  · exact Or.inl rfl
  · exact Or.inr rfl

end Allocator

/-! ## Tokens that are not ended -/

/-- The call gives back the block of a token or makes another of it, or it gives back the whole arena. -/
def Call.ends (k : Nat) (t : Token) : Call → Prop
  | .deinit j => j = k
  | .release j owner t' => j = k ∧ owner = k ∧ t' = t
  | .resize j owner t? _ => j = k ∧ owner = k ∧ t? = some t
  | _ => False

namespace World

variable {geometry : Nat → Geometry} {hostOf : Nat → Nat} {w w' : World geometry hostOf}
  {entries : Nat → List Entry} {k n : Nat} {t : Token} {call : Call}

/-- The tokens from allocator `k` that a user holds or gave up. -/
def loose (w : World geometry hostOf) (k : Nat) : List Token := w.held k ++ w.leaked k

theorem mem_loose_setTokens {j : Nat} {held leaked : List Token} (ht : t ∈ w.loose k)
    (hmem : j = k → t ∈ held ++ leaked) : t ∈ (w.setTokens j held leaked).loose k := by
  by_cases hj : j = k
  · subst hj
    simp only [loose, setTokens, Function.update_self]
    exact hmem rfl
  · simp only [loose, setTokens, Function.update_of_ne (Ne.symm hj)]
    exact ht

theorem mem_erase_loose {t' : Token} (ht : t ∈ w.loose k) (hne : t' ≠ t) :
    t ∈ (w.held k).erase t' ++ w.leaked k := by
  rcases List.mem_append.mp ht with hheld | hleaked
  · exact List.mem_append_left _ ((List.mem_erase_of_ne hne.symm).mpr hheld)
  · exact List.mem_append_right _ hleaked

theorem mem_move_loose {t' : Token} (ht : t ∈ w.loose k) (ht' : t' ∈ w.held k) :
    t ∈ (w.held k).erase t' ++ t' :: w.leaked k := by
  have hperm := (List.perm_cons_erase ht').append_right (w.leaked k)
  exact (hperm.trans List.perm_middle.symm).mem_iff.mp ht

/-- Whatever a resize answers, other tokens stay. -/
theorem keeps_loose_resize {j owner : Nat} {t? : Option Token} {size : UInt64} (ht : t ∈ w.loose k)
    (hother : owner = k → t? ≠ some t) : t ∈ (w.perform (.resize j owner t? size)).2.loose k := by
  have hrest : owner = k → t ∈ t?.elim (w.held owner) (w.held owner).erase ++ w.leaked owner := by
    rintro rfl
    cases t? with
    | none => exact ht
    | some t' => exact mem_erase_loose ht fun hsame => hother rfl (congrArg some hsame)
  rcases he : (w.allocators j).resize t? size with ⟨refused | t'?, a⟩
  · simp only [perform, he]
    refine mem_loose_setTokens ht fun hk => ?_
    rw [List.append_assoc]
    apply List.mem_append_right
    rcases List.mem_append.mp (hrest hk) with hheld | hleaked
    · exact List.mem_append_left _ hheld
    · apply List.mem_append_right
      split
      · exact hleaked
      · exact List.mem_append_right _ hleaked
  · simp only [perform, he]
    refine mem_loose_setTokens ht fun hk => ?_
    rw [List.append_assoc]
    exact List.mem_append_right _ (hrest hk)

/-- A call leaves a token with its user, or given up, if it does not end the token. -/
theorem Sound.keeps_loose (hw : w.Sound entries n) (hok : w.Allowed call) (ht : t ∈ w.loose k)
    (hlasts : ¬ call.ends k t) : t ∈ (w.perform call).2.loose k := by
  cases call with
  | init j capacity => exact ht
  | deinit j => exact mem_loose_setTokens ht fun hj => absurd hj hlasts
  | acquire j size =>
    rcases he : (w.allocators j).acquire size with ⟨_ | t', a⟩
    · simp only [World.perform, he]
      exact ht
    · simp only [World.perform, he]
      refine mem_loose_setTokens ht ?_
      rintro rfl
      exact List.mem_cons_of_mem _ ht
  | release j owner t' =>
    by_cases hown : owner = j
    · subst hown
      obtain ⟨a, he, -⟩ := hw.release_own hok (.release owner owner t') rfl rfl
      simp only [World.perform, he]
      refine mem_loose_setTokens ht ?_
      rintro rfl
      exact mem_erase_loose ht fun hsame => hlasts ⟨rfl, rfl, hsame⟩
    · have hrefuses := Allocator.refuses_outside (hw.outside hown (mem_loans_held w entries n hok))
      simp only [World.perform, hrefuses.release]
      refine mem_loose_setTokens ht ?_
      rintro rfl
      exact mem_move_loose ht hok
  | resize j owner t? size =>
    by_cases hother : owner = k → t? ≠ some t
    · exact keeps_loose_resize ht hother
    · -- The token itself, at another allocator: it comes back, or its user gives it up.
      obtain ⟨rfl, hsome⟩ := Classical.not_imp.mp hother
      obtain rfl := Classical.not_not.mp hsome
      have hown : owner ≠ j := fun he => hlasts ⟨he.symm, rfl, rfl⟩
      have hrefuses := Allocator.refuses_outside (hw.outside hown (mem_loans_held w entries n hok))
      simp only [World.perform, hrefuses.resize]
      refine mem_loose_setTokens ht fun _ => ?_
      by_cases hsize : size = 0
      · simp only [if_pos hsize]
        exact mem_move_loose ht hok
      · simp only [if_neg hsize]
        exact List.mem_append_left _ (List.mem_append_left _ List.mem_cons_self)
  | leak j t' =>
    refine mem_loose_setTokens ht ?_
    rintro rfl
    exact mem_move_loose ht hok
  | recover j address =>
    simp only [World.perform]
    split
    · split
      · rename_i t' _ hleaked
        refine mem_loose_setTokens ht ?_
        rintro rfl
        have hperm := (List.perm_cons_erase hleaked).append_left (w.held j)
        exact (hperm.trans List.perm_middle).mem_iff.mp ht
      · exact ht
    · exact ht
  | usage j => exact ht
  | write j t' place bytes => exact ht
  | list i call => exact ht

theorem loose_subset (w : World geometry hostOf) (entries : Nat → List Entry) (n : Nat) (ht : t ∈ w.loose k) :
    t ∈ w.loans entries n k := List.mem_append_left _ ht

/-! ## Reachable worlds -/

/-- An address tells what the blocks say of it: the token of the block that is handed out there, that the
block there is free, or that there is none. On the grains of the arena, it tells all blocks. A token that was
given up is recovered until a call ends it. -/
structure TellsAddresses (w : World geometry hostOf) (k : Nat) (s : BlockSpace (geometry k)) : Prop where
  starts : ∀ b ∈ s.blocks, (s.address b.offset).toNat =
    s.arena.base.toNat + (b.offset.toNat + (geometry k).front)
  found : ∀ address t, (w.allocators k).recover address = .ok t ↔
    ∃ b ∈ s.allocated, s.address b.offset = address ∧ t = ⟨address, b.size⟩
  free : ∀ address, (w.allocators k).recover address = .error (.doubleFree address) ↔
    ∃ b ∈ s.blocks, b.header.isFree = true ∧ s.address b.offset = address
  stray : ∀ address, (w.allocators k).recover address = .error (.foreignPointer address) ↔
    ∀ b ∈ s.blocks, s.address b.offset ≠ address
  faults : ∀ address fault, (w.allocators k).recover address = .error fault →
    fault = .doubleFree address ∨ fault = .foreignPointer address
  survey : (w.allocators k).survey = s.outline
  lasting : ∀ t ∈ w.held k, ∀ w', Leads (fun call => ¬ call.ends k t) (w.perform (.leak k t)).2 w' →
    (w'.perform (.recover k t.address)).1 = .token (.ok t)
  still : ∀ address, (w.perform (.recover k address)).1 = .token ((w.allocators k).recover address) ∧
    (w.perform (.recover k address)).2.allocators = w.allocators ∧
    (w.perform (.recover k address)).2.lists = w.lists ∧
    (w.perform (.recover k address)).2.stamp = w.stamp ∧
    (w.perform (.recover k address)).2.unreleased = w.unreleased

section Exact

variable (hg : ∀ k, (geometry k).Exact)
include hg

theorem Reachable.recovers_later {stores : Nat → BackingStore} (h : Reachable stores w) (ht : t ∈ w.held k)
    (hleads : Leads (fun call => ¬ call.ends k t) (w.perform (.leak k t)).2 w') :
    (w'.perform (.recover k t.address)).1 = .token (.ok t) := by
  have hok : w.Allowed (.leak k t) := ht
  obtain ⟨entries, n, hw⟩ := h.sound hg
  have hstart := hw.keeps_loose hok (List.mem_append_left _ ht) not_false
  have hloose := hleads.holds (.step h hok) hstart fun w call hreach hmem hok hlasts => by
    obtain ⟨entries, n, hw⟩ := hreach.sound hg
    exact hw.keeps_loose hok hmem hlasts
  obtain ⟨entries', n', hw'⟩ := (Reachable.leads (.step h hok) hleads).sound hg
  have hrecover := (hw'.lends k).recover_iff.mpr ⟨loose_subset w' entries' n' hloose, rfl⟩
  simp only [World.perform, hrecover]

/-- Every reachable world tells addresses. -/
theorem Reachable.tells_addresses {stores : Nat → BackingStore} (h : Reachable stores w)
    {s : BlockSpace (geometry k)} (hs : (w.allocators k).space = some s) : w.TellsAddresses k s := by
  obtain ⟨entries, n, hw⟩ := h.sound hg
  obtain ⟨ts, hsound⟩ := (hw.lends k).sound hs
  refine ⟨fun b hb => hsound.toNat_address_block hb, fun _ _ => Allocator.recover_ok_iff hs hsound,
    fun _ => Allocator.recover_free_iff hs hsound, fun _ => Allocator.recover_stray_iff hs hsound,
    fun _ _ hfault => Allocator.recover_error hs hsound hfault, Allocator.survey_eq hs hsound,
    fun t ht w' hleads => h.recovers_later hg ht hleads, fun address => ?_⟩
  obtain ⟨hlists, hstamp, hunreleased, -⟩ := @perform_unlisted _ _ (.recover k address) w rfl
  rw [hlists, hstamp, hunreleased]
  refine ⟨?_, ?_, rfl, rfl, rfl⟩
  all_goals
    rcases he : (w.allocators k).recover address with fault | t
    all_goals simp only [World.perform, he]
  split <;> rfl

end Exact

theorem tiny_tells_addresses : ∃ s, (tiny.allocators 0).space = some s ∧ tiny.TellsAddresses 0 s := by
  obtain ⟨s, hs⟩ := tiny_space
  exact ⟨s, hs, tiny_reachable.tells_addresses (fun _ => Geometry.standard_exact) hs⟩

end World

end ArenaHeap
