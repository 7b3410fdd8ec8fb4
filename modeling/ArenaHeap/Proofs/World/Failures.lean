import ArenaHeap.Proofs.Loans.Undoing
import ArenaHeap.Proofs.World.Isolation

/-!
# Failed calls

A call that fails has done nothing that anyone can see. Most leave the very state that they found; only an
insertion next to a node that is missing makes a node first, and then gives its block back.

* `Reply.isFault` : whether a call was refused;
* `Allocator.Unharmed`, `World.Unharmed` : no block, no byte of a block, no list and no arena is different;
* `resize_error`, `NodeList.insert_undone` : a resize that fails, and an insertion next to no node;
* `World.OnlyStamps` : a stamp is used up, and free blocks of one allocator may have other bytes;
* `unharmed_other`, `Sound.list_fault`, `Sound.unharmed_list` : calls that are about no list, and those of
  lists;
* `World.FailsCleanly` : what failed calls answer and leave;
* `Reachable.fails_cleanly` : every reachable world fails cleanly.
-/

namespace ArenaHeap

open Tiling

/-- Whether a call was refused. -/
def Reply.isFault : Reply → Bool
  | .done (.error _) | .token (.error _) | .resized (.error _) | .usage (.error _) => true
  | .list reply => reply.isFault
  | _ => false

/-- Whether a call of a list makes a node before it looks for another. -/
def ListCall.makesNode : ListCall → Bool
  | .insertFront _ | .insertAfter (some _) _ | .insertBefore (some _) _ => true
  | _ => false

/-- The insertions of `value` next to a node. -/
def ListCall.besides (r : Option Reference) (value : Int32) : List ListCall :=
  [.insertAfter r value, .insertBefore r value]

/-! ## Spaces -/

namespace BlockSpace

variable {g : Geometry} {s s' : BlockSpace g} {ts : List Tile}

/-- A usable cell of a block that is handed out is no cell of a free block. -/
theorem Sound.not_spare (hs : s.Sound ts) {b : Block} (hb : b ∈ s.allocated) {i : Nat} (hi : b.Uses g i) :
    ¬ s.Spare i := by
  rintro ⟨c, hc, hfree, hlo, hhi⟩
  obtain ⟨hmem, hallocated⟩ := List.mem_filter.mp hb
  have hne : b ≠ c := by
    rintro rfl
    have htag : b.header.tag = Header.freeTag := eq_of_beq hfree
    have htag' : b.header.tag = Header.allocatedTag := eq_of_beq hallocated
    exact absurd (htag.symm.trans htag') (by decide)
  have hsymm : Std.Symm fun b c : Block => ∀ i, ¬ (b.Uses g i ∧ c.Uses g i) :=
    ⟨fun b c hbc i hi => hbc i hi.symm⟩
  exact hs.isolated.disjoint.forall hmem hc hne i ⟨hi, hlo, hhi⟩

theorem usage_congr (hlayout : s'.arena.layout = s.arena.layout) (hshape : s'.shape = s.shape) :
    s'.usage = s.usage := by
  have hblocks : s'.blocks = s.blocks := congrArg Shape.blocks hshape
  have hcapacity : s'.capacity = s.capacity := congrArg Layout.size hlayout
  unfold usage
  rw [hblocks, hcapacity]

end BlockSpace

/-! ## Allocators -/

namespace Allocator

variable {g : Geometry} {a a' : Allocator g} {size : UInt64}

/-- The arena is where it was, its blocks and their chain are the same, and the blocks that are handed out
have the bytes that they had. No arena changed hands. -/
structure Unharmed (a a' : Allocator g) : Prop where
  extent : a'.extent = a.extent
  shape : a'.space.map BlockSpace.shape = a.space.map BlockSpace.shape
  usage : a'.usage = a.usage
  claims : a'.store.claims = a.store.claims
  releases : a'.store.releases = a.store.releases
  bytes : ∀ s s', a.space = some s → a'.space = some s' → ∀ b ∈ s.allocated, ∀ i, b.Uses g i →
    s'.arena.memory.get i = s.arena.memory.get i

theorem Unharmed.of_space (hspace : a'.space = a.space) (hhistory : a'.store.history = a.store.history) :
    a.Unharmed a' := by
  refine ⟨congrArg (Option.map _) hspace, congrArg (Option.map _) hspace, ?_,
    congrArg (List.countP _) hhistory, congrArg (List.countP _) hhistory, ?_⟩
  · unfold Allocator.usage
    rw [hspace]
  · intro s s' hs hs'
    rw [hspace, hs] at hs'
    cases hs'
    exact fun _ _ _ _ => rfl

theorem Unharmed.of_frame (store : BackingStore) {s s' : BlockSpace g} {ts : List Tile} (hs : s.Sound ts)
    (hshape : s'.shape = s.shape) (hf : s.Frame s' s.Spare) :
    Unharmed ⟨store, some s⟩ ⟨store, some s'⟩ := by
  refine ⟨?_, congrArg some hshape, ?_, rfl, rfl, ?_⟩
  · simp only [Allocator.extent, Option.map_some, hf.base, hf.layout]
  · exact congrArg Except.ok (BlockSpace.usage_congr hf.layout hshape)
  · intro u u' hu hu' b hb i hi
    cases hu
    cases hu'
    exact hf.get i (hs.not_spare hb hi)

theorem acquire_error {fault : Fault} (h : a.acquire size = (.error fault, a')) : a' = a := by
  revert h
  fun_cases Allocator.acquire a size with
  | case1 | case2 | case3 =>
    rintro ⟨⟩
    rfl
  | case4 => nofun

theorem release_error {t : Token} {fault : Fault} (h : a.release t = (.error fault, a')) : a' = a := by
  revert h
  fun_cases Allocator.release a t with
  | case1 | case2 =>
    rintro ⟨⟩
    rfl
  | case3 => nofun

/-- A resize that fails does nothing, and hands a token back unless its block was to be released. -/
theorem resize_error {t? : Option Token} {refused : ResizeFault} (h : a.resize t? size = (.error refused, a')) :
    a' = a ∧ refused.returned = if 0 < size then t? else none := by
  revert h
  fun_cases Allocator.resize a t? size with
  | case1 | case3 | case8 | case10 => nofun
  | case2 fault b hacquire =>
    rintro ⟨⟩
    exact ⟨acquire_error hacquire, (ite_self none).symm⟩
  | case4 t hzero fault b hrelease =>
    rintro ⟨⟩
    exact ⟨release_error hrelease, (if_neg (hzero ▸ UInt64.lt_irrefl 0)).symm⟩
  | case5 t hpos | case6 t hpos | case7 t hpos | case9 t hpos =>
    rintro ⟨⟩
    exact ⟨rfl, (if_pos (UInt64.pos_iff_ne_zero.mpr hpos)).symm⟩

end Allocator

/-! ## Nodes -/

namespace NodeList

variable {g : Geometry} {l : NodeList} {h : Host g} {es : List Entry} {rest : List Token}

theorem nodes_congr {g : Geometry} {a a' : Allocator g} (hspace : a'.space = a.space) (l : NodeList) :
    l.nodes a' = l.nodes a := by
  have hnode (address : UInt64) : a'.node address = a.node address := by
    unfold Allocator.node Allocator.read
    rw [hspace]
  have hnodes (fuel : Nat) (cursor : Option UInt64) : nodesFrom a' fuel cursor = nodesFrom a fuel cursor := by
    induction fuel generalizing cursor with
    | zero => rfl
    | succ fuel ih =>
      cases cursor with
      | none => rfl
      | some address => rw [nodesFrom, nodesFrom, hnode, ih]
  unfold nodes nodeBound
  rw [hspace, hnodes]

/-- An insertion next to a node that is missing leaves its traces in free blocks, and uses up a stamp. -/
theorem insert_undone (hg : g.Exact) (hl : l.Holds h.allocator es)
    (hlent : h.allocator.Lends (es.map Entry.token ++ rest)) {t : Token} {a : Allocator g}
    (hacquire : h.allocator.acquire Node.byteSize = (.ok t, a)) {r : Reference}
    (hnone : ∀ e ∈ es, e.ref.same r = false) (value : Int32) :
    ∃ s s', h.allocator.space = some s ∧ s'.shape = s.shape ∧ s.Frame s' s.Spare ∧
      (a.write t.address (Node.toBytes ⟨none, t.size, h.stamp, value⟩)).release t =
        (.ok (), ⟨h.allocator.store, some s'⟩) ∧
      ∀ call ∈ ListCall.besides (some r) value, l.answer h call = (.inserted (.error .notFound), l,
        { h with allocator := ⟨h.allocator.store, some s'⟩, stamp := h.stamp + 1 }) := by
  obtain ⟨a₂, hrelease, hafter, hbefore⟩ := insert_misses hg hl hlent hacquire hnone value
  have hroom : Node.byteSize.toNat ≤ t.size.toNat := by
    rcases hlent.acquire_cases hg Node.byteSize with ⟨fault, he⟩ | ⟨t', a', he, hle, -⟩
    · rw [hacquire] at he
      cases he
    · rw [hacquire] at he
      cases he
      exact hle
  have hfit : 0 + (Node.toBytes ⟨none, t.size, h.stamp, value⟩).length ≤ t.size.toNat := by
    rw [Node.length_toBytes, Nat.zero_add]
    exact hroom
  obtain ⟨s, s', hs, hundone, hshape, hframe⟩ := hlent.acquire_undone hg hacquire hfit
  have hzero : t.address + UInt64.ofNat 0 = t.address := UInt64.add_zero _
  rw [hzero] at hundone
  obtain rfl : a₂ = ⟨h.allocator.store, some s'⟩ := (Prod.mk.inj (hrelease.symm.trans hundone)).2
  refine ⟨s, s', hs, hshape, hframe, hundone, fun call hcall => ?_⟩
  rcases List.mem_pair.mp hcall with rfl | rfl
  · rw [answer, hafter]
    rfl
  · rw [answer, hbefore]
    rfl

end NodeList

/-! ## Worlds -/

namespace World

variable {geometry : Nat → Geometry} {hostOf : Nat → Nat} {w w' : World geometry hostOf}
  {entries : Nat → List Entry} {i k n : Nat} {t : Token} {r : Reference} {value : Int32}

/-- Every allocator is unharmed, and every list has the nodes that it had. -/
structure Unharmed (w w' : World geometry hostOf) : Prop where
  allocators : ∀ k, (w.allocators k).Unharmed (w'.allocators k)
  lists : w'.lists = w.lists
  nodes : ∀ i, (w'.lists i).nodes (w'.allocators (hostOf i)) = (w.lists i).nodes (w.allocators (hostOf i))

/-- A stamp was used up, and free blocks of allocator `k` may have other bytes. Nothing else is different. -/
def OnlyStamps (w : World geometry hostOf) (k : Nat) (w' : World geometry hostOf) : Prop :=
  ∃ s s', (w.allocators k).space = some s ∧ s'.shape = s.shape ∧ s.Frame s' s.Spare ∧
    w' = { w.setAllocator k ⟨(w.allocators k).store, some s'⟩ with stamp := w.stamp + 1 }

/-- What failed calls answer and leave. -/
structure FailsCleanly (w : World geometry hostOf) : Prop where
  unharmed : ∀ call, (w.perform call).1.isFault = true → w.Unharmed (w.perform call).2
  /-- A resize hands back what it was given, unless it was to release it. -/
  returned : ∀ k owner t? size refused, (w.perform (.resize k owner t? size)).1 = .resized (.error refused) →
    refused.returned = if 0 < size then t? else none
  /-- Without a reference there is nothing to insert next to. -/
  absent : ∀ i value, ∀ call ∈ ListCall.besides none value, ∃ text,
    w.perform (.list i call) = (.list (.inserted (.error (.invalidArgument text))), w)
  /-- Without room for a node it does not matter where it was to be. -/
  exhausted : ∀ i fault, ((w.allocators (hostOf i)).acquire Node.byteSize).1 = .error fault →
    ∀ call : ListCall, call.makesNode = true →
      w.perform (.list i call) = (.list (.inserted (.error (.allocationExhausted fault))), w)
  /-- The block of a node is acquired and released again if the reference means no node of the list. -/
  missing : ∀ i r value t a, (w.allocators (hostOf i)).acquire Node.byteSize = (.ok t, a) →
    (∀ p ∈ (w.lists i).nodes (w.allocators (hostOf i)), p.ref.same r = false) →
    ∀ call ∈ ListCall.besides (some r) value,
      (w.perform (.list i call)).1 = .list (.inserted (.error .notFound)) ∧
      (a.write t.address (Node.toBytes ⟨none, t.size, w.stamp, value⟩)).release t =
        (.ok (), (w.perform (.list i call)).2.allocators (hostOf i)) ∧
      w.OnlyStamps (hostOf i) (w.perform (.list i call)).2

theorem Unharmed.refl (w : World geometry hostOf) : w.Unharmed w :=
  ⟨fun _ => .of_space rfl rfl, rfl, fun _ => rfl⟩

theorem Unharmed.of_update {a : Allocator (geometry k)}
    (hallocators : w'.allocators = Function.update w.allocators k a) (hlists : w'.lists = w.lists)
    (hspace : a.space = (w.allocators k).space) (hhistory : a.store.history = (w.allocators k).store.history) :
    w.Unharmed w' := by
  have hspaces (j : Nat) : (w'.allocators j).space = (w.allocators j).space ∧
      (w'.allocators j).store.history = (w.allocators j).store.history := by
    rw [hallocators]
    by_cases hj : j = k
    · subst hj
      rw [Function.update_self]
      exact ⟨hspace, hhistory⟩
    · rw [Function.update_of_ne hj]
      exact ⟨rfl, rfl⟩
  refine ⟨fun j => .of_space (hspaces j).1 (hspaces j).2, hlists, fun i => ?_⟩
  rw [hlists]
  exact NodeList.nodes_congr (hspaces _).1 _

/-- A call that is about no list leaves its allocator as it was if it fails. -/
theorem unharmed_other {call : Call} (hcall : call.isList = false) (hfault : (w.perform call).1.isFault = true) :
    w.Unharmed (w.perform call).2 := by
  cases call with
  | init k capacity =>
    rcases Allocator.init_cases (w.allocators k) capacity with ⟨fault, store, he, hhistory⟩ | ⟨arena, store, he, -⟩
    · simp only [perform, he]
      exact .of_update rfl rfl rfl hhistory
    · simp only [perform, he, Reply.isFault, Bool.false_eq_true] at hfault
  | acquire k size =>
    rcases he : (w.allocators k).acquire size with ⟨fault | t, a⟩
    · obtain rfl := Allocator.acquire_error he
      simp only [perform, he]
      exact .of_update rfl rfl rfl rfl
    · simp only [perform, he, Reply.isFault, Bool.false_eq_true] at hfault
  | release k owner t =>
    rcases he : (w.allocators k).release t with ⟨fault | _, a⟩
    · obtain rfl := Allocator.release_error he
      simp only [perform, he]
      exact .of_update rfl rfl rfl rfl
    · simp only [perform, he, Reply.isFault, Bool.false_eq_true] at hfault
  | resize k owner t? size =>
    rcases he : (w.allocators k).resize t? size with ⟨refused | t'?, a⟩
    · obtain ⟨rfl, -⟩ := Allocator.resize_error he
      simp only [perform, he]
      exact .of_update rfl rfl rfl rfl
    · simp only [perform, he, Reply.isFault, Bool.false_eq_true] at hfault
  | recover k address =>
    cases he : (w.allocators k).recover address with
    | error fault =>
      simp only [perform, he]
      exact .refl w
    | ok t => simp only [perform, he, Reply.isFault, Bool.false_eq_true] at hfault
  | usage k => exact .refl w
  | deinit k | leak k t | write k t place bytes => cases hfault
  | list i call => cases hcall

/-! ## Lists -/

theorem setList_self (w : World geometry hostOf) (i : Nat) :
    w.setList i (w.lists i) (w.host (hostOf i)) = w := by
  unfold setList host
  rw [setAllocator_self, Function.update_eq_self]

theorem perform_list {call : ListCall} {reply : ListReply}
    (h : (w.lists i).answer (w.host (hostOf i)) call = (reply, w.lists i, w.host (hostOf i))) :
    w.perform (.list i call) = (.list reply, w) := by
  simp only [perform, h, setList_self]

theorem absent (w : World geometry hostOf) (i : Nat) (value : Int32) {call : ListCall}
    (hcall : call ∈ ListCall.besides none value) : ∃ text,
      w.perform (.list i call) = (.list (.inserted (.error (.invalidArgument text))), w) := by
  rcases List.mem_pair.mp hcall with rfl | rfl
  · exact ⟨_, perform_list rfl⟩
  · exact ⟨_, perform_list rfl⟩

theorem exhausted {fault : Fault} (h : ((w.allocators (hostOf i)).acquire Node.byteSize).1 = .error fault)
    {call : ListCall} (hcall : call.makesNode = true) :
    w.perform (.list i call) = (.list (.inserted (.error (.allocationExhausted fault))), w) := by
  have hplace (value : Int32) : (w.host (hostOf i)).place value = (.error fault, w.host (hostOf i)) := by
    rcases he : (w.allocators (hostOf i)).acquire Node.byteSize with ⟨fault' | t, a⟩
    · rw [he] at h
      cases h
      obtain rfl := Allocator.acquire_error he
      simp only [Host.place, host, he]
    · rw [he] at h
      cases h
  refine perform_list ?_
  cases call with
  | insertFront value =>
    simp only [NodeList.answer, NodeList.insertFront, hplace]
    rfl
  | insertAfter r? value =>
    cases r? with
    | none => cases hcall
    | some r =>
      simp only [NodeList.answer, NodeList.insertAfter, hplace]
      rfl
  | insertBefore r? value =>
    cases r? with
    | none => cases hcall
    | some r =>
      simp only [NodeList.answer, NodeList.insertBefore, hplace]
      rfl
  | _ => cases hcall

namespace Sound

theorem not_same_iff (hw : w.Sound entries n) (i : Nat) (r : Reference) :
    (∀ p ∈ (w.lists i).nodes (w.allocators (hostOf i)), p.ref.same r = false) ↔
      ∀ e ∈ entries i, e.ref.same r = false := by
  have hnodes := @List.forall_mem_map _ _ Placed.ref (Entry.placed none (entries i)) (·.same r = false)
  rw [Entry.map_ref_placed, List.forall_mem_map] at hnodes
  rw [hw.nodes_eq]
  exact hnodes.symm

section Exact

variable (hg : (geometry (hostOf i)).Exact)
include hg

theorem missing (hw : w.Sound entries n) {a : Allocator (geometry (hostOf i))}
    (hacquire : (w.allocators (hostOf i)).acquire Node.byteSize = (.ok t, a))
    (hnone : ∀ p ∈ (w.lists i).nodes (w.allocators (hostOf i)), p.ref.same r = false)
    {call : ListCall} (hcall : call ∈ ListCall.besides (some r) value) :
    (w.perform (.list i call)).1 = .list (.inserted (.error .notFound)) ∧
      (a.write t.address (Node.toBytes ⟨none, t.size, w.stamp, value⟩)).release t =
        (.ok (), (w.perform (.list i call)).2.allocators (hostOf i)) ∧
      w.OnlyStamps (hostOf i) (w.perform (.list i call)).2 := by
  have hrefs : ∀ e ∈ entries i, e.ref.same r = false := (hw.not_same_iff i r).mp hnone
  obtain ⟨s, s', hs, hshape, hframe, hundone, hanswer⟩ :=
    @NodeList.insert_undone _ _ (w.host (hostOf i)) _ _ hg (hw.holds i) (hw.lends_list i) _ _ hacquire _ hrefs value
  simp only [World.perform, hanswer call hcall]
  refine ⟨trivial, ?_, s, s', hs, hshape, hframe, ?_⟩
  · simp only [setList, setAllocator, Function.update_self]
    exact hundone
  · unfold setList
    rw [Function.update_eq_self]
    rfl

theorem reply_list (hw : w.Sound entries n) (call : ListCall) :
    (w.perform (.list i call)).1 = .list (w.played entries i call).1 :=
  ((hw.mono (Nat.le_max_left n (i + 1))).list hg (Nat.le_max_right _ _) call).1

theorem insert_fault (hw : w.Sound entries n) {call : ListCall}
    (hcall : call ∈ ListCall.besides (some r) value) (hfault : (w.perform (.list i call)).1.isFault = true) :
    (w.perform (.list i call)).2 = w ∨ w.OnlyStamps (hostOf i) (w.perform (.list i call)).2 := by
  rcases hacquire : (w.allocators (hostOf i)).acquire Node.byteSize with ⟨fault | t, a⟩
  · have hmakes : call.makesNode = true := by rcases List.mem_pair.mp hcall with rfl | rfl <;> rfl
    exact Or.inl (congrArg Prod.snd (exhausted (congrArg Prod.fst hacquire) hmakes))
  right
  rcases Entry.first_match (fun e => e.ref.same r) (entries i) with hnone | ⟨as, x, bs, hes, hx, has⟩
  · exact (hw.missing hg hacquire ((hw.not_same_iff i r).mpr hnone) hcall).2.2
  · -- The node is in the list, and there is room: the insertion does not fail.
    have hspan := @Entry.span_first (fun e => e.ref.same r) as bs x has hx
    rw [← hes] at hspan
    rw [hw.reply_list hg] at hfault
    rcases List.mem_pair.mp hcall with rfl | rfl
    all_goals
      simp only [played, ListCall.play, hacquire, hspan] at hfault
      cases hfault

/-- A call of a list that fails does nothing, or acquires a block for a node and releases it again. -/
theorem list_fault (hw : w.Sound entries n) {call : ListCall}
    (hfault : (w.perform (.list i call)).1.isFault = true) :
    (w.perform (.list i call)).2 = w ∨ w.OnlyStamps (hostOf i) (w.perform (.list i call)).2 := by
  cases call with
  | insertFront value =>
    rcases hacquire : (w.allocators (hostOf i)).acquire Node.byteSize with ⟨fault | t, a⟩
    · exact Or.inl (congrArg Prod.snd (exhausted (congrArg Prod.fst hacquire) rfl))
    · rw [hw.reply_list hg] at hfault
      simp only [played, ListCall.play, hacquire] at hfault
      cases hfault
  | insertAfter r? value =>
    cases r? with
    | none =>
      obtain ⟨text, hsame⟩ := w.absent i value List.mem_cons_self
      exact Or.inl (congrArg Prod.snd hsame)
    | some r => exact hw.insert_fault hg List.mem_cons_self hfault
  | insertBefore r? value =>
    cases r? with
    | none =>
      obtain ⟨text, hsame⟩ := w.absent i value (List.mem_cons_of_mem _ List.mem_cons_self)
      exact Or.inl (congrArg Prod.snd hsame)
    | some r => exact hw.insert_fault hg (List.mem_cons_of_mem _ List.mem_cons_self) hfault
  | delete value =>
    left
    simp only [World.perform, NodeList.answer] at hfault ⊢
    revert hfault
    fun_cases NodeList.delete (w.lists i) (w.host (hostOf i)) value with
    | case1 => exact fun _ => setList_self w i
    | case2 =>
      intro hfault
      cases hfault
  | clear | search value | count | isEmpty | values | range start stop => cases hfault

theorem unharmed_list (hw : w.Sound entries n) {call : ListCall}
    (hfault : (w.perform (.list i call)).1.isFault = true) : w.Unharmed (w.perform (.list i call)).2 := by
  rcases hw.list_fault hg hfault with hsame | ⟨s, s', hs, hshape, hframe, hw'⟩
  · rw [hsame]
    exact .refl w
  -- The chains are the same, for the call did to them what it does to plain lists.
  have hi : i < max n (i + 1) := Nat.le_max_right _ _
  obtain ⟨hreply, hadvances⟩ := (hw.mono (Nat.le_max_left n (i + 1))).list hg hi call
  rw [hreply] at hfault
  have hentries : (w.played entries i call).2 = entries i := ListCall.play_fault hfault
  rw [hentries, Function.update_eq_self] at hadvances
  refine ⟨fun k => ?_, ?_, fun j => ?_⟩
  · rw [hw']
    by_cases hk : k = hostOf i
    · subst hk
      obtain ⟨ts, hsound⟩ := (hw.lends _).sound hs
      simp only [setAllocator, Function.update_self]
      rw [show w.allocators (hostOf i) = ⟨(w.allocators (hostOf i)).store, some s⟩ by rw [← hs]]
      exact .of_frame _ hsound hshape hframe
    · simp only [setAllocator, Function.update_of_ne hk]
      exact .of_space rfl rfl
  · rw [hw']
    rfl
  · rw [hadvances.sound.nodes_eq, hw.nodes_eq]

end Exact

end Sound

/-- Every reachable world fails cleanly. -/
theorem Reachable.fails_cleanly {stores : Nat → BackingStore} (hg : ∀ k, (geometry k).Exact)
    (h : Reachable stores w) : w.FailsCleanly := by
  obtain ⟨entries, n, hw⟩ := h.sound hg
  refine ⟨?_, ?_, fun i value call => w.absent i value, fun i fault he call => exhausted he,
    fun i r value t a he hnone call => hw.missing (hg _) he hnone⟩
  · intro call hfault
    cases hcall : call.isList with
    | false => exact unharmed_other hcall hfault
    | true =>
      cases call with
      | list i call => exact hw.unharmed_list (hg _) hfault
      | _ => cases hcall
  · intro k owner t? size refused hreply
    rcases he : (w.allocators k).resize t? size with ⟨refused' | t'?, a⟩
    · simp only [perform, he] at hreply
      cases hreply
      exact (Allocator.resize_error he).2
    · simp only [perform, he] at hreply
      cases hreply

theorem tiny_fails_cleanly : tiny.FailsCleanly :=
  tiny_reachable.fails_cleanly fun _ => Geometry.standard_exact

end World

end ArenaHeap
