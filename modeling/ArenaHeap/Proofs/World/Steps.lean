import ArenaHeap.Proofs.Loans.Resizing
import ArenaHeap.Proofs.World.Loans

/-!
# Steps of a world

* `Allocator.Keeps` : a block stays handed out where it is, with its size and its bytes;
* `SequenceStep` : what a call and its reply mean for the sequences of all lists;
* `World.Advances` : a sound world after a step is sound, its sequences made the step, and only the
  blocks that the call is about may have changed;
* `World.perform_unlisted` : a call that is about no list leaves all lists alone;
* `World.played` : what a call makes of a chain;
* `Sound.known` : an allocator lends a token that is held, or has nothing at its address;
* `Sound.perform_other`, `Sound.list`, `Sound.perform` : allowed calls advance a sound world;
* `Reachable.sound` : every reachable world is sound.
-/

namespace ArenaHeap

open Tiling

variable {geometry : Nat → Geometry} {hostOf : Nat → Nat} {w : World geometry hostOf}
  {entries : Nat → List Entry} {i k n owner : Nat} {t : Token} {call : Call} {reply : Reply}

/-- The token is still lent, and its block has the bytes that it had. -/
structure Allocator.Keeps {g : Geometry} (a a' : Allocator g) (toks' : List Token) (t : Token) : Prop where
  lent : t ∈ toks'
  bytes : ∀ n ≤ t.size.toNat, a'.read t.address n = a.read t.address n

theorem Allocator.Keeps.refl {g : Geometry} (a : Allocator g) {toks : List Token} (ht : t ∈ toks) :
    a.Keeps a toks t := ⟨ht, fun _ _ => rfl⟩

theorem Allocator.Spares.keeps {g : Geometry} {a a' : Allocator g} {toks toks' : List Token}
    (h : a.Spares a' toks) (ht : t ∈ toks) (ht' : t ∈ toks') : a.Keeps a' toks' t :=
  ⟨ht', h.bytes t ht⟩

/-- What a call on the world `w` and its reply mean for the sequences of all lists. A node that is put in is no
node of any list. -/
inductive SequenceStep (w : World geometry hostOf) :
    Call → Reply → (Nat → List Reference) → (Nat → List Reference) → Prop
  | list {i : Nat} {call : ListCall} {reply : ListReply} {refs : Nat → List Reference} {after : List Reference}
    (hstep : ListStep ((w.allocators (hostOf i)).acquire Node.byteSize).1 call reply (refs i) after)
    (hnew : ∀ r ∈ reply.newcomer?, ∀ j, ∀ x ∈ refs j, x.same r = false) :
    SequenceStep w (.list i call) (.list reply) refs (Function.update refs i after)
  | other {call : Call} (reply : Reply) (refs : Nat → List Reference) (hcall : call.isList = false) :
    SequenceStep w call reply refs refs

/-- The references to the nodes of each list. -/
def sequences (entries : Nat → List Entry) (i : Nat) : List Reference := (entries i).map Entry.ref

theorem sequences_update (entries : Nat → List Entry) (i : Nat) (es : List Entry) :
    sequences (Function.update entries i es) = Function.update (sequences entries) i (es.map Entry.ref) := by
  funext j
  by_cases hj : j = i
  · subst hj
    unfold sequences
    rw [Function.update_self, Function.update_self]
  · rw [sequences, Function.update_of_ne hj, Function.update_of_ne hj, sequences]

namespace World

/-- The world after a step is sound, and the sequences of its lists made the step. But for an arena that
is given back, arenas stay where they are, and so does all that is lent in them and that the call is not
about. Only a call that claims an arena or gives one back asks a store. -/
structure Advances (w : World geometry hostOf) (entries : Nat → List Entry) (n : Nat) (call : Call)
    (reply : Reply) (w' : World geometry hostOf) (entries' : Nat → List Entry) (n' : Nat) : Prop where
  sound : w'.Sound entries' n'
  step : SequenceStep w call reply (sequences entries) (sequences entries')
  arenas : ∀ k, call ≠ .deinit k → ∀ x ∈ (w.allocators k).extent, x ∈ (w'.allocators k).extent
  keeps : ∀ k, call ≠ .deinit k → ∀ t ∈ w.loans entries n k, t.address ∉ w.targets call →
    (w.allocators k).Keeps (w'.allocators k) (w'.loans entries' n' k) t
  still : ∀ k, call.arena? ≠ some k → (w.allocators k).Stays (w'.allocators k)

/-- What a call on list `i` answers and makes of its chain, as of a plain list. -/
def played (w : World geometry hostOf) (entries : Nat → List Entry) (i : Nat) (call : ListCall) :
    ListReply × List Entry :=
  call.play ((w.allocators (hostOf i)).acquire Node.byteSize).1 w.stamp (entries i)

theorem stamp_list (w : World geometry hostOf) (i : Nat) (call : ListCall) :
    (w.perform (.list i call)).2.stamp =
      call.stampAfter ((w.allocators (hostOf i)).acquire Node.byteSize).1 w.stamp :=
  NodeList.answer_stamp (w.lists i) (w.host (hostOf i)) call

theorem setAllocator_self (w : World geometry hostOf) (k : Nat) : w.setAllocator k (w.allocators k) = w := by
  unfold setAllocator
  rw [Function.update_eq_self]

theorem setTokens_self (w : World geometry hostOf) (k : Nat) :
    w.setTokens k (w.held k) (w.leaked k) = w := by
  unfold setTokens
  rw [Function.update_eq_self, Function.update_eq_self]

theorem perform_acquire (w : World geometry hostOf) (k : Nat) (size : UInt64) :
    (w.perform (.acquire k size)).1 = .token ((w.allocators k).acquire size).1 := by
  rcases he : (w.allocators k).acquire size with ⟨_ | t, a⟩
  · simp only [perform, he]
  · simp only [perform, he]

/-- A call that is about no list leaves all lists alone, and what they share. -/
theorem perform_unlisted (w : World geometry hostOf) (hcall : call.isList = false) :
    (w.perform call).2.lists = w.lists ∧ (w.perform call).2.stamp = w.stamp ∧
      (w.perform call).2.unreleased = w.unreleased ∧ ∀ reply, (w.perform call).1 ≠ .list reply := by
  cases call with
  | list i call => cases hcall
  | acquire k size | release k owner t | resize k owner t? size =>
    simp only [perform]
    split <;> exact ⟨rfl, rfl, rfl, nofun⟩
  | recover k address =>
    simp only [perform]
    split
    · split <;> exact ⟨rfl, rfl, rfl, nofun⟩
    · exact ⟨rfl, rfl, rfl, nofun⟩
  | _ => exact ⟨rfl, rfl, rfl, nofun⟩

namespace Sound

/-! ## Calls that are about no list -/

theorem stays (hw : w.Sound entries n) (hcall : call.isList = false) :
    Advances w entries n call reply w entries n :=
  ⟨hw, .other _ _ hcall, fun _ _ _ hx => hx, fun _ _ _ ht _ => .refl _ ht, fun _ _ => ⟨rfl, rfl⟩⟩

/-- A call on allocator `k` that keeps all it is not about. -/
theorem alters (hcall : call.isList = false) {a : Allocator (geometry k)}
    {held leaked : List Token}
    (hsound : ((w.setAllocator k a).setTokens k held leaked).Sound entries n)
    (harena : call ≠ .deinit k → ∀ x ∈ (w.allocators k).extent, x ∈ a.extent)
    (hkeeps : call ≠ .deinit k → ∀ t ∈ w.loans entries n k, t.address ∉ w.targets call →
      (w.allocators k).Keeps a (held ++ leaked ++ nodeTokens hostOf entries n k) t)
    (hstill : call.arena? ≠ some k → (w.allocators k).Stays a) :
    Advances w entries n call reply ((w.setAllocator k a).setTokens k held leaked) entries n := by
  refine ⟨hsound, .other _ _ hcall, fun j hj x hx => ?_, fun j hj t ht hnot => ?_, fun j hj => ?_⟩
  all_goals by_cases hne : j = k
  · subst hne
    simp only [setTokens, setAllocator, Function.update_self]
    exact harena hj x hx
  · simp only [setTokens, setAllocator, Function.update_of_ne hne]
    exact hx
  · subst hne
    simp only [loans, setTokens, setAllocator, Function.update_self]
    exact hkeeps hj t ht hnot
  · simp only [loans, setTokens, setAllocator, Function.update_of_ne hne]
    exact .refl _ ht
  · subst hne
    simp only [setTokens, setAllocator, Function.update_self]
    exact hstill hj
  · simp only [setTokens, setAllocator, Function.update_of_ne hne]
    exact ⟨rfl, rfl⟩

/-- A call on allocator `k` that spares some tokens, among them those of all nodes. -/
theorem lends_again (hw : w.Sound entries n) (hcall : call.isList = false) {a : Allocator (geometry k)}
    {held leaked toks : List Token}
    (hlends : a.Lends (held ++ leaked ++ nodeTokens hostOf entries n k))
    (hspares : (w.allocators k).Spares a toks) (hnodes : ∀ t ∈ nodeTokens hostOf entries n k, t ∈ toks)
    (hkept : ∀ t ∈ w.loans entries n k, t.address ∉ w.targets call →
      t ∈ toks ∧ t ∈ held ++ leaked ++ nodeTokens hostOf entries n k) :
    Advances w entries n call reply ((w.setAllocator k a).setTokens k held leaked) entries n := by
  refine alters hcall (hw.revise hlends ?_ ?_) ?_ ?_ fun _ => hspares.stays
  · intro i hi
    subst hi
    exact (hw.holds i).spares hspares fun e he => hnodes _ (hw.mem_nodes he)
  · intro j hj x hx y hy
    rw [hspares.extent] at hx
    exact hw.apart k j hj.symm x hx y hy
  · intro _ x hx
    rw [hspares.extent]
    exact hx
  · intro _ t ht hnot
    exact hspares.keeps (hkept t ht hnot).1 (hkept t ht hnot).2

theorem exchange (hw : w.Sound entries n) (hcall : call.isList = false) {held leaked : List Token}
    (hperm : (w.held k ++ w.leaked k).Perm (held ++ leaked)) :
    Advances w entries n call reply (w.setTokens k held leaked) entries n := by
  have hloans := hperm.append_right (nodeTokens hostOf entries n k)
  have hlends := (hw.lends k).perm hloans
  have hmem : ∀ t ∈ w.loans entries n k, t ∈ held ++ leaked ++ nodeTokens hostOf entries n k :=
    fun t ht => hloans.mem_iff.mp ht
  have hsame : (w.setAllocator k (w.allocators k)).setTokens k held leaked = w.setTokens k held leaked := by
    rw [setAllocator_self]
  rw [← hsame]
  exact hw.lends_again hcall hlends (.refl _ (w.loans entries n k))
    (fun t ht => List.mem_append_right _ ht) fun t ht _ => ⟨ht, hmem t ht⟩

theorem loans_held (w : World geometry hostOf) (entries : Nat → List Entry) (n : Nat) (ht : t ∈ w.held k) :
    (w.loans entries n k).Perm
      (t :: ((w.held k).erase t ++ w.leaked k ++ nodeTokens hostOf entries n k)) := by
  have hperm := List.perm_cons_erase ht
  exact (hperm.append_right (w.leaked k)).append_right (nodeTokens hostOf entries n k)

/-- What is lent but for one token, and the token is the one that a call is about. -/
theorem mem_rest {toks rest : List Token} (hperm : toks.Perm (t :: rest)) {t' : Token} (ht' : t' ∈ toks)
    (hnot : t'.address ∉ [t.address]) : t' ∈ rest := by
  rcases List.mem_cons.mp (hperm.mem_iff.mp ht') with rfl | hmem
  · exact absurd (List.mem_singleton_self _) hnot
  · exact hmem

theorem mem_loans_held (w : World geometry hostOf) (entries : Nat → List Entry) (n : Nat)
    (ht : t ∈ w.held k) : t ∈ w.loans entries n k :=
  List.mem_append_left _ (List.mem_append_left _ ht)

/-- A token that is held is lent by the allocator that gets it, or its address is in no arena of that
one. -/
theorem known (hw : w.Sound entries n) (ht : t ∈ w.held owner) (k : Nat) :
    t ∈ w.loans entries n k ∨ (w.allocators k).Outside t.address := by
  have hlent := mem_loans_held w entries n ht
  by_cases hown : owner = k
  · subst hown
    exact Or.inl hlent
  · exact Or.inr (hw.outside hown hlent)

/-- A token that is held is that of a tile. -/
theorem tile_of_held (hw : w.Sound entries n) (ht : t ∈ w.held k) : ∃ s pre u post,
    w.allocators k = ⟨(w.allocators k).store, some s⟩ ∧ s.Sound (pre ++ u :: post) ∧ u.free = false ∧
      (span (geometry k).front pre, u.size) ∈ Tiling.live (geometry k).front 0 (pre ++ u :: post) ∧
      s.token (span (geometry k).front pre, u.size) = t ∧ t.size.toNat = u.size ∧
      s.loan (s.block (.ofNat (span (geometry k).front pre))) = t := by
  have hmem := mem_loans_held w entries n ht
  obtain ⟨s, hspace, -⟩ := (hw.lends k).inside hmem
  obtain ⟨ts, hs⟩ := (hw.lends k).sound hspace
  obtain ⟨p, hp, rfl⟩ := (hw.lends k).token_of_mem hspace hs hmem
  have hsize := (hs.toNat_token hp).2
  obtain ⟨pre, u, post, rfl, hu, rfl⟩ := mem_live hp
  rw [Nat.zero_add] at hp hsize ⊢
  refine ⟨s, pre, u, post, by rw [← hspace], hs, hu, hp, rfl, hsize, ?_⟩
  rw [BlockSpace.loan, hs.shows.size_block]
  rfl

theorem release_own (hw : w.Sound entries n) (ht : t ∈ w.held k) (call : Call) (hcall : call.isList = false)
    (htargets : w.targets call = [t.address]) :
    ∃ a, (w.allocators k).release t = (.ok (), a) ∧ a.extent = (w.allocators k).extent ∧
      ∀ reply, Advances w entries n call reply
        ((w.setAllocator k a).setTokens k ((w.held k).erase t) (w.leaked k)) entries n := by
  have hperm := loans_held w entries n ht
  obtain ⟨a, he, hlends, hspares⟩ := ((hw.lends k).perm hperm).release
  refine ⟨a, he, hspares.extent, fun reply => ?_⟩
  apply hw.lends_again hcall hlends hspares (fun t ht => List.mem_append_right _ ht)
  intro t ht hnot
  rw [htargets] at hnot
  exact ⟨mem_rest hperm ht hnot, mem_rest hperm ht hnot⟩

/-- A token that another allocator gets is lost. -/
theorem release_foreign (hw : w.Sound entries n) (hne : owner ≠ k) (ht : t ∈ w.held owner) (call : Call)
    (hcall : call.isList = false) :
    ∃ fault, (w.allocators k).release t = (.error fault, w.allocators k) ∧
      ∀ reply, Advances w entries n call reply
        (w.setTokens owner ((w.held owner).erase t) (t :: w.leaked owner)) entries n := by
  have he := Allocator.release_outside (hw.outside hne (mem_loans_held w entries n ht))
  refine ⟨_, he, fun reply => hw.exchange hcall ?_⟩
  exact ((List.perm_cons_erase ht).append_right _).trans List.perm_middle.symm

theorem release (hw : w.Sound entries n) (ht : t ∈ w.held owner) :
    Advances w entries n (.release k owner t) (w.perform (.release k owner t)).1
      (w.perform (.release k owner t)).2 entries n := by
  by_cases hown : owner = k
  · subst hown
    obtain ⟨a, he, -, hadvances⟩ := hw.release_own ht (.release owner owner t) rfl rfl
    simp only [perform, he]
    exact hadvances _
  · obtain ⟨fault, he, hadvances⟩ := hw.release_foreign hown ht (.release k owner t) rfl
    simp only [perform, he]
    rw [setAllocator_self]
    exact hadvances _

theorem resize_zero (hw : w.Sound entries n) (ht : t ∈ w.held owner) :
    Advances w entries n (.resize k owner (some t) 0) (w.perform (.resize k owner (some t) 0)).1
      (w.perform (.resize k owner (some t) 0)).2 entries n := by
  by_cases hown : owner = k
  · subst hown
    obtain ⟨a, he, -, hadvances⟩ := hw.release_own ht (.resize owner owner (some t) 0) rfl rfl
    simp only [perform, Allocator.resize, if_pos, he]
    exact hadvances _
  · obtain ⟨fault, he, hadvances⟩ := hw.release_foreign hown ht (.resize k owner (some t) 0) rfl
    simp only [perform, Allocator.resize, if_pos, he]
    rw [setAllocator_self]
    exact hadvances _

section Exact

variable (hg : (geometry k).Exact)
include hg

/-- A token that an allocator hands out is held, whatever call asked for it. -/
theorem acquire_any (hw : w.Sound entries n) (size : UInt64) (call : Call)
    (hcall : call.isList = false) :
    (∃ fault, (w.allocators k).acquire size = (.error fault, w.allocators k)) ∨
      ∃ t a, (w.allocators k).acquire size = (.ok t, a) ∧ ∀ reply, Advances w entries n call reply
        ((w.setAllocator k a).setTokens k (t :: w.held k) (w.leaked k)) entries n := by
  rcases (hw.lends k).acquire_cases hg size with ⟨fault, he⟩ | ⟨t, a, he, -, hlends, hspares⟩
  · exact Or.inl ⟨fault, he⟩
  · refine Or.inr ⟨t, a, he, fun reply => ?_⟩
    apply hw.lends_again hcall hlends hspares (fun t ht => List.mem_append_right _ ht)
    intro t ht _
    exact ⟨ht, List.mem_cons_of_mem _ ht⟩

theorem acquire (hw : w.Sound entries n) (size : UInt64) :
    Advances w entries n (.acquire k size) (w.perform (.acquire k size)).1 (w.perform (.acquire k size)).2
      entries n := by
  rcases hw.acquire_any hg size (.acquire k size) rfl with ⟨fault, he⟩ | ⟨t, a, he, hadvances⟩
  · simp only [perform, he]
    rw [setAllocator_self]
    exact hw.stays rfl
  · simp only [perform, he]
    exact hadvances _

theorem resize_none (hw : w.Sound entries n) (size : UInt64) :
    Advances w entries n (.resize k k none size) (w.perform (.resize k k none size)).1
      (w.perform (.resize k k none size)).2 entries n := by
  rcases hw.acquire_any hg size (.resize k k none size) rfl with
    ⟨fault, he⟩ | ⟨t, a, he, hadvances⟩
  · simp only [perform, Allocator.resize, he]
    rw [setAllocator_self]
    exact hw.exchange rfl (.refl _)
  · simp only [perform, Allocator.resize, he]
    exact hadvances _

theorem resize_some (hw : w.Sound entries n) (ht : t ∈ w.held owner) {size : UInt64}
    (hsize : size ≠ 0) :
    Advances w entries n (.resize k owner (some t) size) (w.perform (.resize k owner (some t) size)).1
      (w.perform (.resize k owner (some t) size)).2 entries n := by
  have hback := (List.perm_cons_erase ht).append_right (w.leaked owner)
  by_cases hown : owner = k
  · subst hown
    have hperm := loans_held w entries n ht
    rcases ((hw.lends owner).perm hperm).resize_cases hg hsize with
      ⟨fault, he⟩ | ⟨t', a, he, -, hlends, hspares⟩
    · simp only [perform, he]
      rw [setAllocator_self]
      exact hw.exchange rfl hback
    · simp only [perform, he]
      apply hw.lends_again rfl hlends hspares (fun t ht => List.mem_append_right _ ht)
      intro t ht hnot
      exact ⟨mem_rest hperm ht hnot, List.mem_cons_of_mem _ (mem_rest hperm ht hnot)⟩
  · have he := Allocator.resize_outside (hw.outside hown (mem_loans_held w entries n ht)) hsize
    simp only [perform, he]
    rw [setAllocator_self]
    exact hw.exchange rfl hback

theorem resize (hw : w.Sound entries n) (t? : Option Token) (size : UInt64)
    (hok : w.Allowed (.resize k owner t? size)) :
    Advances w entries n (.resize k owner t? size) (w.perform (.resize k owner t? size)).1
      (w.perform (.resize k owner t? size)).2 entries n := by
  cases t? with
  | none =>
    obtain rfl : owner = k := hok
    exact hw.resize_none hg size
  | some t =>
    by_cases hsize : size = 0
    · subst hsize
      exact hw.resize_zero hok
    · exact hw.resize_some hg hok hsize

end Exact

theorem leak (hw : w.Sound entries n) (ht : t ∈ w.held k) :
    Advances w entries n (.leak k t) (w.perform (.leak k t)).1 (w.perform (.leak k t)).2 entries n :=
  hw.exchange rfl (((List.perm_cons_erase ht).append_right _).trans List.perm_middle.symm)

theorem recover (hw : w.Sound entries n) (address : UInt64) :
    Advances w entries n (.recover k address) (w.perform (.recover k address)).1
      (w.perform (.recover k address)).2 entries n := by
  cases he : (w.allocators k).recover address with
  | error fault =>
    simp only [perform, he]
    exact hw.stays rfl
  | ok t =>
    simp only [perform, he]
    by_cases hmem : t ∈ w.leaked k
    · rw [if_pos hmem]
      exact hw.exchange rfl (((List.perm_cons_erase hmem).append_left _).trans List.perm_middle)
    · rw [if_neg hmem]
      exact hw.stays rfl

theorem write (hw : w.Sound entries n) {place : Nat} {bytes : List UInt8}
    (ht : t ∈ w.held k ++ w.leaked k) (hfit : place + bytes.length ≤ t.size.toNat) :
    Advances w entries n (.write k t place bytes) (w.perform (.write k t place bytes)).1
      (w.perform (.write k t place bytes)).2 entries n := by
  have hperm : (w.loans entries n k).Perm
      (t :: ((w.held k ++ w.leaked k).erase t ++ nodeTokens hostOf entries n k)) :=
    (List.perm_cons_erase ht).append_right (nodeTokens hostOf entries n k)
  obtain ⟨hlends, hspares⟩ := ((hw.lends k).perm hperm).write hfit
  have hsame : (w.setAllocator k ((w.allocators k).write (t.address + .ofNat place) bytes)).setTokens k
      (w.held k) (w.leaked k) =
      w.setAllocator k ((w.allocators k).write (t.address + .ofNat place) bytes) := setTokens_self _ k
  simp only [perform]
  rw [← hsame]
  exact hw.lends_again rfl (hlends.perm hperm.symm) hspares (fun t ht => List.mem_append_right _ ht)
    fun t ht hnot => ⟨mem_rest hperm ht hnot, ht⟩

/-! ## Arenas -/

theorem entries_nil (hw : w.Sound entries n) (hnone : nodeTokens hostOf entries n (hostOf i) = []) :
    entries i = [] := by
  cases hes : entries i with
  | nil => rfl
  | cons e es =>
    have hmem := hw.mem_nodes (show e ∈ entries i by rw [hes]; exact List.mem_cons_self)
    rw [hnone] at hmem
    cases hmem

theorem holds_nil (hw : w.Sound entries n) (hnone : nodeTokens hostOf entries n k = [])
    (a : Allocator (geometry k)) : ∀ i, hostOf i = k → (w.lists i).Holds a (entries i) := by
  intro i hi
  subst hi
  have hhead := (hw.holds i).head
  have hes := hw.entries_nil hnone
  rw [hes] at hhead ⊢
  exact ⟨hhead, trivial⟩

theorem init (hg : (geometry k).Exact) (hw : w.Sound entries n) (capacity : UInt64)
    (hok : w.Allowed (.init k capacity)) :
    Advances w entries n (.init k capacity) (w.perform (.init k capacity)).1
      (w.perform (.init k capacity)).2 entries n := by
  cases hspace : (w.allocators k).space with
  | some s =>
    have hready : (w.allocators k).isInitialized = true := by
      unfold Allocator.isInitialized
      rw [hspace]
      rfl
    simp only [perform, Allocator.init, if_pos hready]
    rw [setAllocator_self]
    exact hw.stays rfl
  | none =>
    have hvacant := hok hspace
    have hnone := hw.loans_bare hspace
    obtain ⟨htokens, hnodes⟩ := List.append_eq_nil_iff.mp hnone
    have hlends := (hw.lends k).init hg capacity fun arena he => (hvacant arena he).1
    have hsame : (w.setAllocator k ((w.allocators k).init capacity).2).setTokens k (w.held k) (w.leaked k) =
        w.setAllocator k ((w.allocators k).init capacity).2 := setTokens_self _ k
    simp only [perform]
    rw [← hsame]
    refine alters rfl (hw.revise hlends (hw.holds_nil hnodes _) ?_) ?_ ?_ fun h => absurd rfl h
    · intro j hj x hx y hy
      rcases Allocator.init_cases (w.allocators k) capacity with
        ⟨fault, store, he, -⟩ | ⟨arena, store, he, -, hclaim, -⟩
      · rw [he, Allocator.extent, hspace] at hx
        cases hx
      · rw [he, Allocator.extent_fresh, Option.mem_some] at hx
        rw [← hx]
        exact (hvacant arena hclaim).2 j y hy
    · intro _ x hx
      unfold Allocator.extent at hx
      rw [hspace] at hx
      cases hx
    · intro _ t ht
      rw [hnone] at ht
      cases ht

theorem deinit (hw : w.Sound entries n) (hok : w.Allowed (.deinit k)) :
    Advances w entries n (.deinit k) (w.perform (.deinit k)).1 (w.perform (.deinit k)).2 entries n := by
  have hnodes : nodeTokens hostOf entries n k = [] := by
    apply List.eq_nil_iff_forall_not_mem.mpr
    intro t ht
    obtain ⟨i, -, hi, e, he, -⟩ := mem_nodeTokens.mp ht
    have hempty := NodeList.isEmpty_eq (hw.holds i)
    rw [hok i hi] at hempty
    rw [List.isEmpty_iff.mp hempty.symm] at he
    cases he
  have hlends := (hw.lends k).deinit
  refine alters rfl (hw.revise ?_ (hw.holds_nil hnodes _) ?_) (fun h => absurd rfl h)
    (fun h => absurd rfl h) fun h => absurd rfl h
  · rw [hnodes]
    exact hlends
  · intro j hj x hx y hy
    unfold Allocator.extent at hx
    rw [Allocator.deinit_eq] at hx
    cases hx

/-! ## Lists -/

theorem others_spared {es : List Entry} {rest : List Token} {a : Allocator (geometry k)}
    (hlends : a.Lends (es.map Entry.token ++ rest)) (call : ListCall) (ht : t ∈ rest) :
    t ∈ NodeList.spared call es rest := by
  refine NodeList.mem_spared.mpr ⟨List.mem_append_right _ ht, ?_⟩
  intro htarget
  have hmem := call.targets_subset _ _ htarget
  rw [Entry.map_address_placed] at hmem
  obtain ⟨e, he, haddress⟩ := List.mem_map.mp hmem
  have hnodup := hlends.nodup
  rw [List.map_append, List.nodup_append] at hnodup
  exact hnodup.2.2 _ (List.mem_map_of_mem (List.mem_map_of_mem he)) _ (List.mem_map_of_mem ht) haddress

theorem fresh {es : List Entry} {e : Entry} (hw : w.Sound (Function.update entries i es) n)
    (hes : es.Perm (e :: entries i)) : ∀ j, ∀ x ∈ sequences entries j, x.same e.ref = false := by
  intro j x hx
  obtain ⟨e', he', rfl⟩ := List.mem_map.mp hx
  apply Entry.same_eq_false
  intro heq
  by_cases hj : j = i
  · subst hj
    have hnodup := hw.nodes_nodup j
    rw [Function.update_self, (hes.map _).nodup_iff, List.map_cons, List.nodup_cons] at hnodup
    exact hnodup.1 (List.mem_map.mpr ⟨e', he', heq⟩)
  · refine hw.node_address_ne hj ?_ ?_ heq
    · rw [Function.update_self]
      exact hes.mem_iff.mpr List.mem_cons_self
    · rw [Function.update_of_ne hj]
      exact he'

theorem list (hg : (geometry (hostOf i)).Exact) (hw : w.Sound entries n) (hi : i < n) (call : ListCall) :
    (w.perform (.list i call)).1 = .list (w.played entries i call).1 ∧
      Advances w entries n (.list i call) (w.perform (.list i call)).1 (w.perform (.list i call)).2
        (Function.update entries i (w.played entries i call).2) n := by
  have hperm := loans_split w hi entries (entries i)
  rw [Function.update_eq_self] at hperm
  have hlends := (hw.lends _).perm hperm
  obtain ⟨es, hanswers⟩ := @NodeList.answer_spec _ _ (w.host (hostOf i)) _ _ hg (hw.holds i) hlends call
  obtain ⟨l, hl⟩ : ∃ l, ((w.lists i).answer (w.host (hostOf i)) call).2.1 = l := ⟨_, rfl⟩
  obtain ⟨h, hh⟩ : ∃ h, ((w.lists i).answer (w.host (hostOf i)) call).2.2 = h := ⟨_, rfl⟩
  have hperform : w.perform (.list i call) =
      (.list ((w.lists i).answer (w.host (hostOf i)) call).1, w.setList i l h) := by
    rw [← hl, ← hh]
    rfl
  rw [hl, hh] at hanswers
  have hspares := hanswers.leaves.spares
  have hstays := @stays_setList _ _ w _ _ hspares.stays l
  have hsound := hw.relist hi hanswers.leaves.holds hanswers.leaves.lends
    (hspares.mono fun t ht => others_spared hlends call ht)
  have hplayed : w.played entries i call = (_, es) := hanswers.plays
  rw [hperform, hplayed]
  refine ⟨rfl, hsound, ?_, ?_, ?_, fun k _ => hstays k⟩
  · rw [sequences_update]
    refine .list hanswers.step ?_
    intro r hr
    obtain ⟨e, rfl, hes⟩ := hanswers.fresh r hr
    exact hsound.fresh hes
  · intro k _ x hx
    rw [(hstays k).extent]
    exact hx
  · intro k _ t ht hnot
    rw [targets, hw.nodes_eq] at hnot
    by_cases hk : k = hostOf i
    · subst hk
      have hmem := NodeList.mem_spared.mpr ⟨hperm.mem_iff.mp ht, hnot⟩
      simp only [setList, setAllocator, Function.update_self]
      exact hspares.keeps hmem ((loans_split w hi entries es).mem_iff.mpr (hanswers.kept t hmem))
    · rw [allocators_setList_of_ne hk, loans_setList_of_ne hk]
      exact .refl _ ht

/-! ## Runs -/

section Exact

variable (hg : ∀ k, (geometry k).Exact)
include hg

/-- A call that is about no list changes no chain. -/
theorem perform_other (hw : w.Sound entries n) (hcall : call.isList = false) (hok : w.Allowed call) :
    Advances w entries n call (w.perform call).1 (w.perform call).2 entries n := by
  cases call with
  | init k capacity => exact hw.init (hg k) capacity hok
  | deinit k => exact hw.deinit hok
  | acquire k size => exact hw.acquire (hg k) size
  | release k owner t => exact hw.release hok
  | resize k owner t? size => exact hw.resize (hg k) t? size hok
  | leak k t => exact hw.leak hok
  | recover k address => exact hw.recover address
  | usage k => exact hw.stays rfl
  | write k t place bytes => exact hw.write hok.1 hok.2
  | list i call => cases hcall

/-- Allowed calls advance a sound world. -/
theorem perform (hw : w.Sound entries n) (call : Call) (hok : w.Allowed call) :
    ∃ entries' n', n ≤ n' ∧
      Advances w entries n' call (w.perform call).1 (w.perform call).2 entries' n' := by
  cases hcall : call.isList with
  | false => exact ⟨_, _, Nat.le_refl n, hw.perform_other hg hcall hok⟩
  | true =>
    cases call with
    | list i call =>
      -- The list may be one that was never used before.
      have hn : n ≤ max n (i + 1) := Nat.le_max_left _ _
      have hi : i < max n (i + 1) := Nat.le_max_right _ _
      exact ⟨_, _, hn, ((hw.mono hn).list (hg _) hi call).2⟩
    | _ => cases hcall

end Exact

end Sound

theorem Reachable.sound (hg : ∀ k, (geometry k).Exact) {stores : Nat → BackingStore}
    (h : Reachable stores w) : ∃ entries n, w.Sound entries n := by
  induction h with
  | start => exact ⟨_, _, .start stores⟩
  | step h hok ih =>
    obtain ⟨entries, n, hw⟩ := ih
    obtain ⟨entries', n', -, hadvances⟩ := hw.perform hg _ hok
    exact ⟨entries', n', hadvances.sound⟩

/-- A store of zeroed arenas keeps its promise to the first who asks. -/
theorem allowed_first {accepts : Layout → Bool} {base : UInt64} (capacity : UInt64)
    (hgrid : (geometry k).grid ∣ base.toNat)
    (hfits : base.toNat + ((geometry k).arenaSize capacity).toNat ≤ 2 ^ 64) :
    (@start geometry hostOf fun _ => .zeroed accepts base).Allowed (.init k capacity) := by
  intro _ arena hclaim
  obtain ⟨hbase, hsize⟩ := Allocator.claim_zeroed hclaim
  refine ⟨⟨?_, ?_⟩, ?_⟩
  · rw [hbase]
    exact hgrid
  · rw [hbase, hsize]
    exact hfits
  · intro j x hx
    cases hx

/-- One arena of 256 bytes, with a block of 20 bytes and a list of one node. -/
def tiny : World (fun _ => .standard) fun _ => 0 :=
  (((((World.start fun _ => .zeroed (fun _ => true) 4096).perform (.init 0 256)).2.perform
    (.acquire 0 20)).2).perform (.list 0 (.insertFront 7))).2

theorem tiny_reachable : Reachable (fun _ => .zeroed (fun _ => true) 4096) tiny :=
  .step (.step (.step .start (allowed_first 256 (by decide) (by decide))) trivial) trivial

theorem tiny_space : ∃ s, (tiny.allocators 0).space = some s := by
  have hready : (tiny.allocators 0).space.isSome = true := by decide +kernel
  exact Option.isSome_iff_exists.mp hready

end World

end ArenaHeap
