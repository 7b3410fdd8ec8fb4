import ArenaHeap.Proofs.Facade.Regions
import ArenaHeap.Proofs.World.Failures
import ArenaHeap.Proofs.World.Isolation

/-!
# Every block has one owner

A block that is handed out belongs to a token of a user or to a node of a list, and to one only. What a list
takes and gives back are the blocks of its nodes.

* `Allocator.Releases` : tokens that are accepted one after the other (`Lends.releases`: those that are lent
  are, in any order);
* `World.nodeLoansOf` : the tokens of the nodes of one list, as it finds them in memory;
* `unreleased_list`, `Reachable.tidy` : no list ever failed to give a block back;
* `Sound.shares` : a call on a list changes nothing but what belongs to it;
* `Sound.clears` : a list that is cleared gives back the blocks of its nodes, as if they were released in any
  order;
* `World.BlocksOwned`, `Reachable.blocks_owned` : so it is in every reachable world.
-/

namespace ArenaHeap

/-! ## Releases one after the other -/

namespace Allocator

variable {g : Geometry} {a a' : Allocator g} {toks rest : List Token} {t : Token}

/-- The tokens are released one after the other, and each is accepted. -/
inductive Releases : Allocator g → List Token → Allocator g → Prop
  | nil (a : Allocator g) : Releases a [] a
  | cons {a a' a'' : Allocator g} {t : Token} {toks : List Token} (h : a.release t = (.ok (), a'))
    (hrest : Releases a' toks a'') : Releases a (t :: toks) a''

/-- Tokens that are lent are accepted in any order. -/
theorem Lends.releases (h : a.Lends (toks ++ rest)) :
    ∃ a', a.Releases toks a' ∧ a'.Lends rest ∧ a'.extent = a.extent := by
  induction toks generalizing a with
  | nil => exact ⟨a, .nil a, h, rfl⟩
  | cons t toks ih =>
    obtain ⟨a₁, he, hlends, hspares⟩ := Lends.release h
    obtain ⟨a', hreleases, hrest, hextent⟩ := ih hlends
    exact ⟨a', .cons he hreleases, hrest, hextent.trans hspares.extent⟩

/-- The shape of the arena, if there is one. -/
def shape? (a : Allocator g) : Option Shape := a.space.map BlockSpace.shape

theorem Lends.shape?_congr {toks' : List Token} (h : a.Lends toks) (h' : a'.Lends toks')
    (hextent : a'.extent = a.extent) (hperm : toks.Perm toks') : a'.shape? = a.shape? := by
  rcases h.twins h' hextent hperm with ⟨store, store', rfl, rfl⟩ | ⟨store, store', s, s', ts, rfl, rfl, htwins⟩
  · rfl
  · simp only [shape?, Option.map_some, htwins.shape_eq]

theorem Lends.toNat_allocatedBlocks (h : a.Lends toks) {u : Usage} (hu : a.usage = .ok u) :
    u.allocatedBlocks.toNat = toks.length := by
  cases h with
  | bare store => cases hu
  | @lent store s ts _ hs hp =>
    cases hu
    rw [hs.usage_tells.allocatedBlocks, hp.length_eq, ← hs.map_loan, List.length_map]

end Allocator

namespace World

variable {geometry : Nat → Geometry} {hostOf : Nat → Nat} {w w' : World geometry hostOf}
  {entries : Nat → List Entry} {i k n : Nat} {t : Token} {call : Call}

/-- The tokens of the nodes of list `i`, as it finds them in memory. -/
def nodeLoansOf (w : World geometry hostOf) (i : Nat) : List Token :=
  ((w.lists i).nodes (w.allocators (hostOf i))).map Placed.token

theorem Sound.nodeLoansOf_eq (hw : w.Sound entries n) (i : Nat) :
    w.nodeLoansOf i = (entries i).map Entry.token := by
  rw [nodeLoansOf, hw.nodes_eq, Entry.map_token_placed]

/-! ## Nothing is left unreleased -/

theorem Sound.unreleased_list (hg : (geometry (hostOf i)).Exact) (hw : w.Sound entries n) (call : ListCall) :
    (w.perform (.list i call)).2.unreleased = w.unreleased := by
  obtain ⟨es, hanswers⟩ :=
    @NodeList.answer_spec _ _ (w.host (hostOf i)) _ _ hg (hw.holds i) (hw.lends_list i) call
  exact hanswers.leaves.unreleased

theorem Reachable.tidy {stores : Nat → BackingStore} (hg : ∀ k, (geometry k).Exact) (h : Reachable stores w) :
    w.unreleased = [] := by
  induction h with
  | start => rfl
  | @step w call h hok ih =>
    obtain ⟨entries, n, hw⟩ := h.sound hg
    cases hcall : call.isList with
    | false => rw [(w.perform_unlisted hcall).2.2.1, ih]
    | true =>
      cases call with
      | list i call => rw [hw.unreleased_list (hg _), ih]
      | _ => cases hcall

/-! ## What belongs to a list -/

section Exact

variable (hg : (geometry (hostOf i)).Exact)
include hg

/-- But for the blocks of its nodes, a call on a list leaves alone what is handed out, and the arena. -/
theorem Sound.shares (hw : w.Sound entries n) (call : ListCall) :
    ∃ rest, (w.allocators (hostOf i)).Lends (w.nodeLoansOf i ++ rest) ∧
      ((w.perform (.list i call)).2.allocators (hostOf i)).Lends
        (((w.played entries i call).2).map Entry.token ++ rest) ∧
      (w.perform (.list i call)).2.nodeLoansOf i = (w.played entries i call).2.map Entry.token ∧
      ((w.perform (.list i call)).2.allocators (hostOf i)).extent = (w.allocators (hostOf i)).extent := by
  have hi : i < max n (i + 1) := Nat.le_max_right _ _
  have hw := hw.mono (Nat.le_max_left n (i + 1))
  obtain ⟨-, hadvances⟩ := hw.list hg hi call
  have hperm := loans_split w hi entries (entries i)
  rw [Function.update_eq_self] at hperm
  refine ⟨others w entries (max n (i + 1)) i, ?_, ?_, ?_, (hadvances.still _ nofun).extent⟩
  · rw [hw.nodeLoansOf_eq]
    exact (hw.lends _).perm hperm
  · exact (hadvances.sound.lends _).perm (loans_split _ hi entries _)
  · rw [hadvances.sound.nodeLoansOf_eq, Function.update_self]

/-- A value is deleted with a node that holds it, and the block of that node is all that is given back. -/
theorem Sound.deletes (hw : w.Sound entries n) {value : Int32}
    (hok : (w.perform (.list i (.delete value))).1 = .list (.deleted (.ok ()))) :
    ∃ p ∈ (w.lists i).nodes (w.allocators (hostOf i)), p.node.value = value ∧
      (w.nodeLoansOf i).Perm (p.token :: (w.perform (.list i (.delete value))).2.nodeLoansOf i) ∧
      (w.allocators (hostOf i)).lent.Perm
        (p.token :: ((w.perform (.list i (.delete value))).2.allocators (hostOf i)).lent) := by
  obtain ⟨rest, hbefore, hafter, hnodes, -⟩ := hw.shares hg (.delete value)
  rw [hw.reply_list hg] at hok
  obtain ⟨as, x, bs, hes, hvalue, -, hplayed⟩ := ListCall.play_deleted (Reply.list.inj hok)
  obtain ⟨next, hp⟩ : ∃ next, x.withLink next ∈ (w.lists i).nodes (w.allocators (hostOf i)) := by
    rw [hw.nodes_eq, hes, Entry.placed_append]
    exact ⟨_, List.mem_append_right _ List.mem_cons_self⟩
  have htokens : (w.nodeLoansOf i).Perm (x.token :: (as ++ bs).map Entry.token) := by
    rw [hw.nodeLoansOf_eq, hes]
    exact List.perm_middle.map Entry.token
  rw [hnodes, played, hplayed]
  rw [played, hplayed] at hafter
  refine ⟨_, hp, hvalue, htokens, ?_⟩
  exact hbefore.perm_lent.symm.trans ((htokens.append_right rest).trans (hafter.perm_lent.cons _))

/-- A list that is cleared has no nodes, and their blocks are all that it gives back. The arena is as if they
were released one after the other, in whatever order. -/
theorem Sound.clears (hw : w.Sound entries n) :
    (w.perform (.list i .clear)).2.nodeLoansOf i = [] ∧
      (w.allocators (hostOf i)).lent.Perm
        (w.nodeLoansOf i ++ ((w.perform (.list i .clear)).2.allocators (hostOf i)).lent) ∧
      ∀ toks, toks.Perm (w.nodeLoansOf i) → ∃ a, (w.allocators (hostOf i)).Releases toks a ∧
        a.shape? = ((w.perform (.list i .clear)).2.allocators (hostOf i)).shape? := by
  obtain ⟨rest, hbefore, hafter, hnodes, hextent⟩ := hw.shares hg .clear
  refine ⟨hnodes, hbefore.perm_lent.symm.trans (hafter.perm_lent.append_left _), fun toks hperm => ?_⟩
  obtain ⟨a, hreleases, hlends, hsame⟩ := (hbefore.perm (hperm.symm.append_right rest)).releases
  exact ⟨a, hreleases, hafter.shape?_congr hlends (hsame.trans hextent.symm) (.refl _)⟩

/-- If all but the nodes of a list was handed out before, clearing it brings that arena back. -/
theorem Sound.restores {hostOf₀ : Nat → Nat} {w₀ : World geometry hostOf₀} {entries₀ : Nat → List Entry} {n₀ : Nat}
    (hw : w.Sound entries n) (hw₀ : w₀.Sound entries₀ n₀)
    (hextent : (w₀.allocators (hostOf i)).extent = (w.allocators (hostOf i)).extent)
    (hlent : (w.allocators (hostOf i)).lent.Perm (w.nodeLoansOf i ++ (w₀.allocators (hostOf i)).lent)) :
    ((w.perform (.list i .clear)).2.allocators (hostOf i)).shape? = (w₀.allocators (hostOf i)).shape? := by
  obtain ⟨rest, hbefore, hafter, -, hstays⟩ := hw.shares hg .clear
  -- What is lent but for the nodes of the list is what was lent before.
  have hrest : (w₀.allocators (hostOf i)).lent.Perm rest :=
    (List.perm_append_left_iff _).mp (hlent.symm.trans hbefore.perm_lent.symm)
  exact (hw₀.lends _).shape?_congr hafter (hstays.trans hextent.symm) ((hw₀.lends _).perm_lent.trans hrest)

end Exact

/-! ## Reachable worlds -/

/-- The number of nodes on allocator `k`, as the first lists count them. -/
def nodeCount (w : World geometry hostOf) : Nat → Nat → Nat
  | 0, _ => 0
  | n + 1, k => w.nodeCount n k + if hostOf n = k then (w.lists n).count (w.allocators (hostOf n)) else 0

theorem length_nodeLoans (w : World geometry hostOf) (n k : Nat) : (w.nodeLoans n k).length = w.nodeCount n k := by
  unfold nodeLoans
  induction n with
  | zero => rfl
  | succ n ih =>
    rw [List.range_succ, List.flatMap_append, List.length_append, ih, nodeCount, List.flatMap_singleton,
      apply_ite List.length, List.length_map, List.length_nil, NodeList.count]

/-- Every block that is handed out is that of a token of a user or of a node of a list, each has its own, and
they are as large as they say. No list ever failed to give a block back. A call on a list changes nothing but
what belongs to it; what is deleted or cleared gives back its blocks and nothing else, as if they were released
in any order. -/
structure BlocksOwned (w : World geometry hostOf) : Prop where
  owners : ∃ n, (∀ i, n ≤ i → (w.lists i).isEmpty = true) ∧ ∀ k,
    (w.held k ++ w.leaked k ++ w.nodeLoans n k).Perm (w.allocators k).lent ∧
      ∀ u, (w.allocators k).usage = .ok u →
        u.allocatedBlocks.toNat = (w.held k).length + (w.leaked k).length + w.nodeCount n k
  distinct : ∀ k, ((w.allocators k).lent.map Token.address).Nodup
  room : ∀ i, ∀ p ∈ (w.lists i).nodes (w.allocators (hostOf i)), 40 ≤ p.node.size.toNat
  tidy : w.unreleased = []
  shares : ∀ i call, (∃ rest, (w.allocators (hostOf i)).lent.Perm (w.nodeLoansOf i ++ rest) ∧
      ((w.perform (.list i call)).2.allocators (hostOf i)).lent.Perm
        ((w.perform (.list i call)).2.nodeLoansOf i ++ rest)) ∧
    (∀ k ≠ hostOf i, (w.perform (.list i call)).2.allocators k = w.allocators k) ∧
    (w.perform (.list i call)).2.unreleased = []
  deletes : ∀ i value, (w.perform (.list i (.delete value))).1 = .list (.deleted (.ok ())) →
    ∃ p ∈ (w.lists i).nodes (w.allocators (hostOf i)), p.node.value = value ∧
      (w.nodeLoansOf i).Perm (p.token :: (w.perform (.list i (.delete value))).2.nodeLoansOf i) ∧
      (w.allocators (hostOf i)).lent.Perm
        (p.token :: ((w.perform (.list i (.delete value))).2.allocators (hostOf i)).lent)
  clears : ∀ i, (w.perform (.list i .clear)).2.nodeLoansOf i = [] ∧
    (w.allocators (hostOf i)).lent.Perm
      (w.nodeLoansOf i ++ ((w.perform (.list i .clear)).2.allocators (hostOf i)).lent) ∧
    ∀ toks, toks.Perm (w.nodeLoansOf i) → ∃ a, (w.allocators (hostOf i)).Releases toks a ∧
      a.shape? = ((w.perform (.list i .clear)).2.allocators (hostOf i)).shape?
  restores : ∀ i {hostOf₀ : Nat → Nat} {stores₀ : Nat → BackingStore} (w₀ : World geometry hostOf₀),
    Reachable stores₀ w₀ → (w₀.allocators (hostOf i)).extent = (w.allocators (hostOf i)).extent →
    (w.allocators (hostOf i)).lent.Perm (w.nodeLoansOf i ++ (w₀.allocators (hostOf i)).lent) →
    ((w.perform (.list i .clear)).2.allocators (hostOf i)).shape? = (w₀.allocators (hostOf i)).shape?

theorem Sound.owners (hw : w.Sound entries n) (k : Nat) :
    (w.held k ++ w.leaked k ++ w.nodeLoans n k).Perm (w.allocators k).lent := by
  rw [hw.nodeLoans_eq]
  exact (hw.lends k).perm_lent

/-- In every reachable world, every block has one owner. -/
theorem Reachable.blocks_owned {stores : Nat → BackingStore} (hg : ∀ k, (geometry k).Exact)
    (h : Reachable stores w) : w.BlocksOwned := by
  obtain ⟨entries, n, hw⟩ := h.sound hg
  refine ⟨⟨n, fun i hi => ?_, fun k => ⟨hw.owners k, fun u hu => ?_⟩⟩, fun k => ?_, fun i p hp => ?_, h.tidy hg,
    fun i call => ⟨?_, fun k hk => ?_, ?_⟩, fun i value hok => hw.deletes (hg _) hok, fun i => hw.clears (hg _),
    fun i _ _ w₀ h₀ hextent hlent => ?_⟩
  · rw [NodeList.isEmpty_eq (hw.holds i), hw.bounded i hi]
    rfl
  · rw [(hw.lends k).toNat_allocatedBlocks hu, loans, List.length_append, List.length_append, ← hw.nodeLoans_eq,
      length_nodeLoans]
  · exact ((hw.lends k).perm_lent.map Token.address).nodup_iff.mp (hw.lends k).nodup
  · rw [hw.nodes_eq] at hp
    obtain ⟨e, he, next, rfl⟩ := Entry.mem_placed hp
    exact UInt64.le_iff_toNat_le.mp ((hw.holds i).linked.room he)
  · obtain ⟨rest, hbefore, hafter, hnodes, -⟩ := hw.shares (hg _) call
    rw [hnodes]
    exact ⟨rest, hbefore.perm_lent.symm, hafter.perm_lent.symm⟩
  · exact allocators_setList_of_ne hk _ _
  · rw [hw.unreleased_list (hg _), h.tidy hg]
  · obtain ⟨entries₀, n₀, hw₀⟩ := h₀.sound hg
    exact hw.restores (hg _) hw₀ hextent hlent

theorem tiny_blocks_owned : tiny.BlocksOwned := tiny_reachable.blocks_owned fun _ => Geometry.standard_exact

end World

end ArenaHeap
