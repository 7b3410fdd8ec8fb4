import ArenaHeap.Proofs.Loans.Independence
import ArenaHeap.Proofs.World.Sequences

/-!
# Bytes of users influence no answer

Two runs make the same calls, but for what they write to blocks, and get arenas at the same places, but
for what lies in them. Then they get the same answers.

* `World.SameBooks` : two worlds with the same tokens and the same next stamp;
* `World.Twins` : moreover with the same chains, and allocators that are twins;
* `Twins.allowed`, `Twins.step` : what one twin may do the other may do, with the same reply, and they are
  twins after it; `Twins.write` : a write of one of them does not show;
* `unwritten` : the calls and replies of a run but for writes;
* `World.Coincides` : what can be seen of two worlds is the same;
* `Runs.coincide` : bytes of users and bytes that were there before influence nothing.
-/

namespace ArenaHeap

/-- Whether a call only writes bytes of a block. -/
def Call.isWrite : Call → Bool
  | .write .. => true
  | _ => false

namespace World

variable {geometry : Nat → Geometry} {hostOf : Nat → Nat} {w w' : World geometry hostOf}
  {entries : Nat → List Entry} {i k n owner : Nat} {t : Token} {call : Call}

/-! ## Twins -/

/-- The worlds have the same tokens, and their next node gets the same stamp. -/
structure SameBooks (w w' : World geometry hostOf) : Prop where
  held : w'.held = w.held
  leaked : w'.leaked = w.leaked
  stamp : w'.stamp = w.stamp

/-- The worlds have the same books and the same chains, and their arenas are at the same places. -/
structure Twins (w w' : World geometry hostOf) (entries : Nat → List Entry) (n : Nat) : Prop where
  left : w.Sound entries n
  right : w'.Sound entries n
  books : w.SameBooks w'
  extents : ∀ k, (w'.allocators k).extent = (w.allocators k).extent
  stores : ∀ k, (w.allocators k).store.Alike (w'.allocators k).store

namespace SameBooks

theorem setAllocator (h : w.SameBooks w') (a a' : Allocator (geometry k)) :
    (w.setAllocator k a).SameBooks (w'.setAllocator k a') := ⟨h.held, h.leaked, h.stamp⟩

theorem setTokens (h : w.SameBooks w') (k : Nat) (held leaked : List Token) :
    (w.setTokens k held leaked).SameBooks (w'.setTokens k held leaked) := by
  refine ⟨?_, ?_, h.stamp⟩
  · simp only [World.setTokens, h.held]
  · simp only [World.setTokens, h.leaked]

theorem loans (h : w.SameBooks w') (entries : Nat → List Entry) (n k : Nat) :
    w'.loans entries n k = w.loans entries n k := by
  rw [World.loans, h.held, h.leaked, ← World.loans]

end SameBooks

namespace Twins

theorem start {stores stores' : Nat → BackingStore} (hstores : ∀ k, (stores k).Alike (stores' k)) :
    (World.start stores : World geometry hostOf).Twins (World.start stores') (fun _ => []) 0 :=
  ⟨.start stores, .start stores', ⟨rfl, rfl, rfl⟩, fun _ => rfl, hstores⟩

theorem symm (h : w.Twins w' entries n) : w'.Twins w entries n :=
  ⟨h.right, h.left, ⟨h.books.held.symm, h.books.leaked.symm, h.books.stamp.symm⟩, fun k => (h.extents k).symm,
    fun k => (h.stores k).symm⟩

theorem mono {n' : Nat} (h : w.Twins w' entries n) (hn : n ≤ n') : w.Twins w' entries n' :=
  ⟨h.left.mono hn, h.right.mono hn, h.books, h.extents, h.stores⟩

theorem allocator (h : w.Twins w' entries n) (k : Nat) :
    (w.allocators k).Twins (w'.allocators k) (w.loans entries n k) :=
  ⟨h.left.lends k, h.books.loans entries n k ▸ h.right.lends k, h.extents k, h.stores k⟩

theorem list_eq (h : w.Twins w' entries n) (i : Nat) : w'.lists i = w.lists i := by
  have hleft := (h.left.holds i).head
  have hright := (h.right.holds i).head
  rw [← hleft] at hright
  exact congrArg NodeList.mk hright

theorem space_none (h : w.Twins w' entries n) (k : Nat) (hnone : (w'.allocators k).space = none) :
    (w.allocators k).space = none := by
  have hextent := h.extents k
  rw [Allocator.extent, Allocator.extent, hnone, Option.map_none] at hextent
  exact Option.map_eq_none_iff.mp hextent.symm

theorem vacant (h : w.Twins w' entries n) {arena arena' : Arena} (hplace : arena'.place = arena.place)
    (hvacant : w.Vacant k arena) : w'.Vacant k arena' := by
  obtain ⟨hbase, hlayout⟩ := Prod.mk.inj hplace
  refine ⟨⟨?_, ?_⟩, ?_⟩
  · rw [hbase]
    exact hvacant.1.aligned
  · rw [hbase, Arena.size, hlayout]
    exact hvacant.1.fits
  · intro j x hx
    rw [h.extents j] at hx
    rw [hbase, hlayout]
    exact hvacant.2 j x hx

/-- What one twin may do, the other may do. -/
theorem allowed (h : w.Twins w' entries n) (hok : w.Allowed call) : w'.Allowed call := by
  have hheld := h.books.held
  cases call with
  | init k capacity =>
    intro hnone arena hclaim
    have hplace := (Arena.claim_alike (h.stores k) ((geometry k).arenaSize capacity) (geometry k).granularity).1
    rw [hclaim, Option.map_some, eq_comm, Option.map_eq_some_iff] at hplace
    obtain ⟨arena', hclaim', hsame⟩ := hplace
    exact h.vacant hsame.symm (hok (h.space_none k hnone) arena' hclaim')
  | deinit k =>
    intro i hi
    rw [h.list_eq]
    exact hok i hi
  | release k owner t =>
    show t ∈ w'.held owner
    rw [hheld]
    exact hok
  | resize k owner t? size =>
    cases t? with
    | none => exact hok
    | some t =>
      show t ∈ w'.held owner
      rw [hheld]
      exact hok
  | leak k t =>
    show t ∈ w'.held k
    rw [hheld]
    exact hok
  | write k t place bytes =>
    refine ⟨?_, hok.2⟩
    rw [hheld, h.books.leaked]
    exact hok.1
  | _ => trivial

/-! ## Answers of twins -/

theorem release (h : w.Twins w' entries n) (ht : t ∈ w.held owner) :
    (w'.perform (.release k owner t)).1 = (w.perform (.release k owner t)).1 ∧
      (w.perform (.release k owner t)).2.SameBooks (w'.perform (.release k owner t)).2 := by
  have hsame := (h.allocator k).release (h.left.known ht k)
  rcases hleft : (w.allocators k).release t with ⟨result, a⟩
  rcases hright : (w'.allocators k).release t with ⟨result', a'⟩
  rw [hleft, hright] at hsame
  subst hsame
  cases result'
  all_goals
    simp only [perform, hleft, hright, h.books.held, h.books.leaked]
    exact ⟨trivial, (h.books.setAllocator a a').setTokens owner _ _⟩

section Exact

variable (hg : (geometry k).Exact)
include hg

theorem acquire (h : w.Twins w' entries n) (size : UInt64) :
    (w'.perform (.acquire k size)).1 = (w.perform (.acquire k size)).1 ∧
      (w.perform (.acquire k size)).2.SameBooks (w'.perform (.acquire k size)).2 := by
  have hsame := (h.allocator k).acquire hg size
  rcases hleft : (w.allocators k).acquire size with ⟨result, a⟩
  rcases hright : (w'.allocators k).acquire size with ⟨result', a'⟩
  rw [hleft, hright] at hsame
  subst hsame
  cases result' with
  | error fault =>
    simp only [perform, hleft, hright]
    exact ⟨trivial, h.books.setAllocator a a'⟩
  | ok t =>
    simp only [perform, hleft, hright, h.books.held, h.books.leaked]
    exact ⟨trivial, (h.books.setAllocator a a').setTokens k _ _⟩

theorem resize (h : w.Twins w' entries n) {t? : Option Token}
    (ht : ∀ t ∈ t?, t ∈ w.held owner) (size : UInt64) :
    (w'.perform (.resize k owner t? size)).1 = (w.perform (.resize k owner t? size)).1 ∧
      (w.perform (.resize k owner t? size)).2.SameBooks (w'.perform (.resize k owner t? size)).2 := by
  have hsame := (h.allocator k).resize hg (fun t hmem => h.left.known (ht t hmem) k) size
  rcases hleft : (w.allocators k).resize t? size with ⟨result, a⟩
  rcases hright : (w'.allocators k).resize t? size with ⟨result', a'⟩
  rw [hleft, hright] at hsame
  subst hsame
  cases result'
  all_goals
    simp only [perform, hleft, hright, h.books.held, h.books.leaked]
    exact ⟨trivial, (h.books.setAllocator a a').setTokens owner _ _⟩

end Exact

theorem recover (h : w.Twins w' entries n) (address : UInt64) :
    (w'.perform (.recover k address)).1 = (w.perform (.recover k address)).1 ∧
      (w.perform (.recover k address)).2.SameBooks (w'.perform (.recover k address)).2 := by
  have hsame := (h.allocator k).recover address
  simp only [perform, hsame, h.books.held, h.books.leaked]
  cases (w.allocators k).recover address with
  | error fault => exact ⟨rfl, h.books⟩
  | ok t =>
    refine ⟨rfl, ?_⟩
    simp only
    split
    · exact h.books.setTokens k _ _
    · exact h.books

/-- Twins answer alike, if the call is about no list. -/
theorem answer_other (hg : ∀ k, (geometry k).Exact) (h : w.Twins w' entries n) (hcall : call.isList = false)
    (hok : w.Allowed call) : (w'.perform call).1 = (w.perform call).1 ∧
      (w.perform call).2.SameBooks (w'.perform call).2 := by
  cases call with
  | init k capacity =>
    exact ⟨congrArg Reply.done ((h.allocator k).init capacity).1, h.books.setAllocator _ _⟩
  | deinit k => exact ⟨rfl, (h.books.setAllocator _ _).setTokens k _ _⟩
  | acquire k size => exact h.acquire (hg k) size
  | release k owner t => exact h.release hok
  | resize k owner t? size =>
    refine h.resize (hg k) ?_ size
    intro t ht
    subst ht
    exact hok
  | leak k t =>
    simp only [perform, h.books.held, h.books.leaked]
    exact ⟨trivial, h.books.setTokens k _ _⟩
  | recover k address => exact h.recover address
  | usage k => exact ⟨congrArg Reply.usage (h.allocator k).usage, h.books⟩
  | write k t place bytes => exact ⟨rfl, h.books.setAllocator _ _⟩
  | list i call => cases hcall

section Exact

variable (hg : (geometry (hostOf i)).Exact)
include hg

theorem played (h : w.Twins w' entries n) (call : ListCall) :
    w'.played entries i call = w.played entries i call := by
  unfold World.played
  rw [(h.allocator (hostOf i)).acquire hg, h.books.stamp]

theorem answer_list (h : w.Twins w' entries n) (hi : i < n)
    (call : ListCall) : (w'.perform (.list i call)).1 = (w.perform (.list i call)).1 ∧
      (w.perform (.list i call)).2.SameBooks (w'.perform (.list i call)).2 := by
  refine ⟨?_, h.books.held, h.books.leaked, ?_⟩
  · rw [(h.left.list hg hi call).1, (h.right.list hg hi call).1, h.played hg]
  · rw [stamp_list, stamp_list, (h.allocator (hostOf i)).acquire hg, h.books.stamp]

end Exact

/-! ## Steps of twins -/

/-- Arenas are claimed and given back at the same places. -/
theorem places {reply reply' : Reply} {entries' : Nat → List Entry} {n' : Nat} (h : w.Twins w' entries n)
    (hleft : Advances w entries n call reply (w.perform call).2 entries' n')
    (hright : Advances w' entries n call reply' (w'.perform call).2 entries' n') (k : Nat) :
    ((w'.perform call).2.allocators k).extent = ((w.perform call).2.allocators k).extent ∧
      ((w.perform call).2.allocators k).store.Alike ((w'.perform call).2.allocators k).store := by
  by_cases hk : call.arena? = some k
  · cases call with
    | init j capacity =>
      obtain rfl : j = k := Option.some.inj hk
      simp only [perform, setAllocator, Function.update_self]
      exact ((h.allocator j).init capacity).2
    | deinit j =>
      obtain rfl : j = k := Option.some.inj hk
      simp only [perform, setTokens, setAllocator, Function.update_self]
      exact (h.allocator j).deinit
    | _ => cases hk
  · have hstill := hleft.still k hk
    have hstill' := hright.still k hk
    rw [hstill.extent, hstill'.extent, hstill.store, hstill'.store]
    exact ⟨h.extents k, h.stores k⟩

section Exact

variable (hg : ∀ k, (geometry k).Exact)
include hg

/-- Twins answer alike and are twins afterwards. -/
theorem step (h : w.Twins w' entries n) (hok : w.Allowed call) :
    (w'.perform call).1 = (w.perform call).1 ∧
      ∃ entries' n', (w.perform call).2.Twins (w'.perform call).2 entries' n' := by
  have hok' := h.allowed hok
  cases hcall : call.isList with
  | false =>
    obtain ⟨hreply, hbooks⟩ := h.answer_other hg hcall hok
    have hleft := h.left.perform_other hg hcall hok
    have hright := h.right.perform_other hg hcall hok'
    exact ⟨hreply, entries, n, hleft.sound, hright.sound, hbooks, fun k => (h.places hleft hright k).1,
      fun k => (h.places hleft hright k).2⟩
  | true =>
    cases call with
    | list i call =>
      have hmore := h.mono (Nat.le_max_left n (i + 1))
      have hi : i < max n (i + 1) := Nat.le_max_right _ _
      obtain ⟨hreply, hbooks⟩ := hmore.answer_list (hg _) hi call
      have hleft := (hmore.left.list (hg _) hi call).2
      have hright := (hmore.right.list (hg _) hi call).2
      rw [hmore.played (hg _)] at hright
      exact ⟨hreply, _, _, hleft.sound, hright.sound, hbooks, fun k => (hmore.places hleft hright k).1,
        fun k => (hmore.places hleft hright k).2⟩
    | _ => cases hcall

/-- A write of one twin does not show. -/
theorem write (h : w.Twins w' entries n) (hcall : call.isWrite = true) (hok : w.Allowed call) :
    (w.perform call).2.Twins w' entries n := by
  cases call with
  | write k t place bytes =>
    have hleft := h.left.perform_other hg rfl hok
    have hstill (j : Nat) := hleft.still j nofun
    refine ⟨hleft.sound, h.right, ⟨h.books.held, h.books.leaked, h.books.stamp⟩, fun j => ?_, fun j => ?_⟩
    · rw [(hstill j).extent]
      exact h.extents j
    · rw [(hstill j).store]
      exact h.stores j
  | _ => cases hcall

end Exact

end Twins

/-! ## Runs -/

/-- The calls and replies of a run, but for the writes. -/
def unwritten (trace : List (Call × Reply)) : List (Call × Reply) := trace.filter fun x => !x.1.isWrite

theorem unwritten_write (trace : List (Call × Reply)) {reply : Reply} (hcall : call.isWrite = true) :
    unwritten (trace ++ [(call, reply)]) = unwritten trace := by
  rw [unwritten, List.filter_append, List.filter_cons_of_neg (by simp [hcall]), List.filter_nil,
    List.append_nil, ← unwritten]

theorem unwritten_other (trace : List (Call × Reply)) {reply : Reply} (hcall : call.isWrite = false) :
    unwritten (trace ++ [(call, reply)]) = unwritten trace ++ [(call, reply)] := by
  rw [unwritten, List.filter_append, List.filter_cons_of_pos (by simp [hcall]), List.filter_nil, ← unwritten]

theorem map_unwritten (trace : List (Call × Reply)) :
    (unwritten trace).map Prod.fst = (trace.map Prod.fst).filter fun call => !call.isWrite := by
  rw [List.filter_map]
  rfl

variable {stores stores' : Nat → BackingStore} {trace trace' : List (Call × Reply)}

section Exact

variable (hg : ∀ k, (geometry k).Exact)
include hg

/-- Two runs that make the same calls but for writes have the same replies, and lead to twins. -/
theorem Runs.twins (hstores : ∀ k, (stores k).Alike (stores' k)) (h : Runs stores trace w)
    (h' : Runs stores' trace' w') (hcalls : (unwritten trace).map Prod.fst = (unwritten trace').map Prod.fst) :
    unwritten trace' = unwritten trace ∧ ∃ entries n, w.Twins w' entries n := by
  -- The writes at the end of either run are taken off first, so that both runs end with the same call.
  induction h generalizing trace' w' with
  | start =>
    induction h' with
    | start => exact ⟨rfl, _, _, .start hstores⟩
    | @step trace' w' call' h' hok' ih =>
      cases hwrite : call'.isWrite with
      | true =>
        rw [unwritten_write trace' hwrite] at hcalls ⊢
        obtain ⟨hsame, entries, n, htwins⟩ := ih hcalls
        exact ⟨hsame, entries, n, (htwins.symm.write hg hwrite hok').symm⟩
      | false =>
        rw [unwritten_other trace' hwrite, List.map_append] at hcalls
        cases (List.append_eq_nil_iff.mp hcalls.symm).2
  | @step trace w call h hok ih =>
    cases hwrite : call.isWrite with
    | true =>
      rw [unwritten_write trace hwrite] at hcalls ⊢
      obtain ⟨hsame, entries, n, htwins⟩ := ih h' hcalls
      exact ⟨hsame, entries, n, htwins.write hg hwrite hok⟩
    | false =>
      rw [unwritten_other trace hwrite, List.map_append] at hcalls
      rw [unwritten_other trace hwrite]
      induction h' with
      | start => cases (List.append_eq_nil_iff.mp hcalls).2
      | @step trace' w' call' h' hok' ih' =>
        cases hwrite' : call'.isWrite with
        | true =>
          rw [unwritten_write trace' hwrite'] at hcalls ⊢
          obtain ⟨hsame, entries, n, htwins⟩ := ih' hcalls
          exact ⟨hsame, entries, n, (htwins.symm.write hg hwrite' hok').symm⟩
        | false =>
          rw [unwritten_other trace' hwrite', List.map_append] at hcalls
          rw [unwritten_other trace' hwrite']
          obtain ⟨hbefore, hlast⟩ := List.append_inj' hcalls rfl
          obtain rfl : call = call' := List.singleton_inj.mp hlast
          obtain ⟨hsame, entries, n, htwins⟩ := ih h' hbefore
          obtain ⟨hreply, hafter⟩ := htwins.step hg hok
          rw [hsame, hreply]
          exact ⟨rfl, hafter⟩

/-- What can be seen of the worlds is the same: the arenas with their blocks, the tokens, the values of the
lists, what the stores granted, and the answer to every call. -/
structure Coincides (w w' : World geometry hostOf) : Prop where
  capacities : ∀ k, (w'.allocators k).capacity = (w.allocators k).capacity
  places : ∀ k, (w'.allocators k).extent = (w.allocators k).extent
  shapes : ∀ k, (w'.allocators k).space.map BlockSpace.shape = (w.allocators k).space.map BlockSpace.shape
  transfers : ∀ k, (w'.allocators k).store.history = (w.allocators k).store.history
  tokens : w'.held = w.held ∧ w'.leaked = w.leaked
  values : ∀ i, (w'.lists i).values (w'.allocators (hostOf i)) = (w.lists i).values (w.allocators (hostOf i))
  replies : ∀ call, w.Allowed call → w'.Allowed call ∧ (w'.perform call).1 = (w.perform call).1

theorem Twins.coincides (h : w.Twins w' entries n) : w.Coincides w' := by
  refine ⟨fun k => ?_, h.extents, fun k => ?_, fun k => (h.stores k).history, ⟨h.books.held, h.books.leaked⟩,
    fun i => ?_, fun call hok => ⟨h.allowed hok, (h.step hg hok).1⟩⟩
  · rcases (h.allocator k).cases with ⟨store, store', he, he'⟩ | ⟨store, store', s, s', ts, he, he', htwins⟩
    · rw [he, he']
      rfl
    · rw [he, he']
      exact htwins.capacity
  · rcases (h.allocator k).cases with ⟨store, store', he, he'⟩ | ⟨store, store', s, s', ts, he, he', htwins⟩
    · rw [he, he']
    · rw [he, he']
      exact congrArg some htwins.shape_eq
  · rw [NodeList.values_eq (h.left.holds i) (h.left.lends_list i),
      NodeList.values_eq (h.right.holds i) (h.right.lends_list i)]

/-- Two runs that make the same calls but for what they write to blocks, on stores that are alike but for
what lies in the arenas, get the same replies, and what can be seen after them is the same. -/
theorem Runs.coincide (hstores : ∀ k, (stores k).Alike (stores' k)) (h : Runs stores trace w)
    (h' : Runs stores' trace' w') (hcalls : (unwritten trace).map Prod.fst = (unwritten trace').map Prod.fst) :
    unwritten trace' = unwritten trace ∧ w.Coincides w' := by
  obtain ⟨hsame, entries, n, htwins⟩ := Runs.twins hg hstores h h' hcalls
  exact ⟨hsame, htwins.coincides hg⟩

end Exact

/-- A store whose arenas are not zeroed. -/
def soiledStore : BackingStore where
  answer _ _ := some ⟨4096, fun i => .ofNat (i + 1)⟩

/-- The bytes of the header of a block that is handed out. -/
def forgery : List UInt8 :=
  Word.toBytes 8 16 ++ Word.toBytes 8 Header.nil ++ Word.toBytes 8 Header.allocatedTag

/-- The world `tiny` from such a store, with a header among the bytes of the block. -/
def soiled : World (fun _ => .standard) fun _ => 0 :=
  ((((((World.start fun _ => soiledStore).perform (.init 0 256)).2.perform (.acquire 0 20)).2).perform
    (.write 0 ⟨4128, 32⟩ 0 forgery)).2.perform (.list 0 (.insertFront 7))).2

theorem soiled_runs (hfirst : (@World.start (fun _ => .standard) (fun _ => 0) fun _ => soiledStore).Allowed
    (.init 0 256)) : ∃ trace, trace.map Prod.fst =
      [.init 0 256, .acquire 0 20, .write 0 ⟨4128, 32⟩ 0 forgery, .list 0 (.insertFront 7)] ∧
    Runs (fun _ => soiledStore) trace soiled := by
  have hwrite : ((((World.start fun _ => soiledStore).perform (.init 0 256)).2.perform (.acquire 0 20)).2 :
      World (fun _ => .standard) fun _ => 0).Allowed (.write 0 ⟨4128, 32⟩ 0 forgery) :=
    ⟨by decide +kernel, by decide +kernel⟩
  refine ⟨_, ?_, .step (.step (.step (.step .start hfirst) trivial) hwrite) trivial⟩
  rfl

theorem tiny_coincides : ∃ trace trace',
    (∀ _ : Nat, (BackingStore.zeroed (fun _ => true) 4096).Alike soiledStore) ∧
    Runs (fun _ => .zeroed (fun _ => true) 4096) trace tiny ∧ Runs (fun _ => soiledStore) trace' soiled ∧
      (unwritten trace).map Prod.fst = (unwritten trace').map Prod.fst ∧
      unwritten trace' = unwritten trace ∧ tiny.Coincides soiled := by
  have hstores : ∀ _ : Nat, (BackingStore.zeroed (fun _ => true) 4096).Alike soiledStore :=
    fun _ => ⟨fun _ _ => rfl, rfl, rfl⟩
  have hfirst : (@World.start (fun _ => .standard) (fun _ => 0) fun _ => soiledStore).Allowed
      (.init 0 256) := (Twins.start hstores).allowed (allowed_first 256 (by decide) (by decide))
  obtain ⟨trace, hcalls, hruns⟩ := tiny_runs
  obtain ⟨trace', hcalls', hruns'⟩ := soiled_runs hfirst
  have hsame : (unwritten trace).map Prod.fst = (unwritten trace').map Prod.fst := by
    rw [map_unwritten, map_unwritten, hcalls, hcalls']
    rfl
  exact ⟨trace, trace', hstores, hruns, hruns', hsame,
    hruns.coincide (fun _ => Geometry.standard_exact) hstores hruns' hsame⟩

end World

end ArenaHeap
