import ArenaHeap.Proofs.World.Owners
import ArenaHeap.Proofs.World.References

/-!
# Usage and turnover

What an allocator tells of its arena agrees with what calls and replies tell of it.

* `Account`, `Accounts`, `accounts` : blocks that an allocator handed out and got back, and the tokens of those
  that are with users, by calls and replies alone;
* `ListStep.length_eq` : what a call on a list takes and gives back is what its sequence gains and loses;
* `Accounts.Balanced` : the accounts tell what the allocators of a world lend;
* `Balanced.trade`, `Balanced.exchange`, `Balanced.list` : what the calls do to it (`Balanced.perform`);
* `World.Conserves` : what `usage` tells of the blocks, of the chain and of the account;
* `Runs.usage_conserves` : so it is after every run.
-/

namespace ArenaHeap

/-! ## Accounts -/

/-- What an allocator handed out and got back since it claimed its arena, and the tokens of those blocks that are
with users. -/
structure Account where
  acquired : Nat := 0
  released : Nat := 0
  tokens : List Token := []

/-- A user gets a token, or gives one back, or gives one back for another. -/
def Account.trade (a : Account) (got gave : Option Token) : Account where
  acquired := a.acquired + if gave.isNone then got.toList.length else 0
  released := a.released + if got.isNone then gave.toList.length else 0
  tokens := got.toList ++ gave.elim a.tokens a.tokens.erase

/-- A list takes some blocks and gives some back. -/
def Account.serve (a : Account) (taken returned : Nat) : Account :=
  { a with acquired := a.acquired + taken, released := a.released + returned }

/-- The account of each allocator, and the number of nodes of each list. -/
structure Accounts where
  account : Nat → Account := fun _ => {}
  nodes : Nat → Nat := fun _ => 0

/-- The number of blocks that a list took. -/
def ListReply.taken (reply : ListReply) : Nat := if reply.creates then 1 else 0

/-- The number of blocks that a list of `n` nodes gave back. -/
def ListReply.returned (n : Nat) : ListReply → Nat
  | .inserted (.error .notFound) | .deleted (.ok ()) => 1
  | .cleared => n
  | _ => 0

namespace Accounts

/-- The accounts with another one of allocator `k`. -/
def revise (b : Accounts) (k : Nat) (a : Account) : Accounts := { b with account := Function.update b.account k a }

/-- The accounts after one more call and its reply. A new arena has a new account. -/
def note (hostOf : Nat → Nat) (b : Accounts) : Call × Reply → Accounts
  | (.init k _, .done (.ok ())) => b.revise k {}
  | (.deinit k, _) => b.revise k {}
  | (.acquire k _, .token (.ok t)) => b.revise k ((b.account k).trade (some t) none)
  | (.release k _ t, .done (.ok ())) => b.revise k ((b.account k).trade none (some t))
  | (.resize k _ t? _, .resized (.ok t'?)) => b.revise k ((b.account k).trade t'? t?)
  | (.list i _, .list reply) =>
    { b.revise (hostOf i) ((b.account (hostOf i)).serve reply.taken (reply.returned (b.nodes i))) with
      nodes := Function.update b.nodes i (b.nodes i + reply.taken - reply.returned (b.nodes i)) }
  | _ => b

theorem revise_self (b : Accounts) (k : Nat) : b.revise k (b.account k) = b := by
  unfold revise
  rw [Function.update_eq_self]

end Accounts

/-- The accounts of a run. -/
def accounts (hostOf : Nat → Nat) (history : List (Call × Reply)) : Accounts :=
  history.foldl (Accounts.note hostOf) {}

/-- What a call on a list takes and gives back is what its sequence gains and loses. -/
theorem ListStep.length_eq {acquired : Except Fault Token} {call : ListCall} {reply : ListReply}
    {refs after : List Reference} (hstep : ListStep acquired call reply refs after) :
    after.length + reply.returned refs.length = refs.length + reply.taken := by
  cases hstep with
  | insertAfter bs hx has hvalue | insertBefore bs hx has hvalue | delete bs hx has =>
    simp only [List.length_append, List.length_cons, ListReply.returned, ListReply.taken, ListReply.creates, if_true,
      Bool.false_eq_true, if_false]
    omega
  | clear => exact Nat.zero_add _
  | _ => rfl

namespace World

variable {geometry : Nat → Geometry} {hostOf : Nat → Nat} {w w' : World geometry hostOf}
  {entries entries' : Nat → List Entry} {i k n owner : Nat} {b : Accounts} {t : Token} {call : Call}

/-- The accounts tell the tokens that users have, the number of nodes, and how much of what was handed out is not
back yet. -/
structure Balanced (b : Accounts) (w : World geometry hostOf) (entries : Nat → List Entry) : Prop where
  nodes : ∀ i, b.nodes i = (entries i).length
  tokens : ∀ k, (b.account k).tokens.Perm (w.held k ++ w.leaked k)
  turnover : ∀ k, (b.account k).acquired = (b.account k).released + (w.allocators k).lent.length

theorem Balanced.start (stores : Nat → BackingStore) :
    Balanced {} (World.start stores : World geometry hostOf) fun _ => [] :=
  ⟨fun _ => rfl, fun _ => .refl _, fun _ => rfl⟩

theorem Sound.length_lent (hw : w.Sound entries n) (k : Nat) : (w.allocators k).lent.length =
    (w.held k ++ w.leaked k).length + (nodeTokens hostOf entries n k).length := by
  rw [← (hw.lends k).perm_lent.length_eq, loans, List.length_append]

/-! ## Calls that are about no list -/

theorem Balanced.revise (h : Balanced b w entries) {a : Allocator (geometry k)} {held leaked : List Token}
    (hw' : ((w.setAllocator k a).setTokens k held leaked).Sound entries n) {account : Account}
    (htokens : account.tokens.Perm (held ++ leaked))
    (hturnover : account.acquired =
      account.released + ((held ++ leaked).length + (nodeTokens hostOf entries n k).length)) :
    Balanced (b.revise k account) ((w.setAllocator k a).setTokens k held leaked) entries := by
  refine ⟨h.nodes, fun j => ?_, fun j => ?_⟩
  all_goals by_cases hj : j = k
  · subst hj
    simp only [Accounts.revise, setTokens, Function.update_self]
    exact htokens
  · simp only [Accounts.revise, setTokens, Function.update_of_ne hj]
    exact h.tokens j
  · subst hj
    rw [hw'.length_lent]
    simp only [Accounts.revise, setTokens, Function.update_self]
    exact hturnover
  · simp only [Accounts.revise, setTokens, setAllocator, Function.update_of_ne hj]
    exact h.turnover j

/-- Tokens are traded with a user. -/
theorem Balanced.trade (h : Balanced b w entries) (hw : w.Sound entries n) (got gave : Option Token)
    (hgave : ∀ t ∈ gave, t ∈ w.held k) {a : Allocator (geometry k)}
    (hw' : ((w.setAllocator k a).setTokens k (got.toList ++ gave.elim (w.held k) (w.held k).erase)
      (w.leaked k)).Sound entries n) :
    Balanced (b.revise k ((b.account k).trade got gave))
      ((w.setAllocator k a).setTokens k (got.toList ++ gave.elim (w.held k) (w.held k).erase) (w.leaked k))
      entries := by
  have htokens := h.tokens k
  have hturnover := h.turnover k
  rw [hw.length_lent, List.length_append] at hturnover
  cases gave with
  | none =>
    apply h.revise hw'
    · rw [List.append_assoc]
      exact htokens.append_left _
    · simp only [Account.trade, Option.elim_none, Option.isNone_none, Option.toList_none, List.length_nil, if_true,
        ite_self, List.length_append]
      omega
  | some t =>
    have ht := hgave t rfl
    have hlength := List.length_erase_add_one ht
    apply h.revise hw'
    · have hrest := htokens.erase t
      rw [List.erase_append_left _ ht] at hrest
      rw [List.append_assoc]
      exact hrest.append_left _
    · cases got with
      | none =>
        simp only [Account.trade, Option.elim_some, Option.isNone_none, Option.isNone_some, Option.toList_none,
          Option.toList_some, List.length_append, List.length_nil, List.length_singleton, Bool.false_eq_true,
          if_true, if_false]
        omega
      | some t' =>
        simp only [Account.trade, Option.elim_some, Option.isNone_some, Option.toList_some, List.length_append,
          List.length_singleton, Bool.false_eq_true, if_false]
        omega

/-- Tokens are given up, found again or kept, while their blocks stay handed out. -/
theorem Balanced.exchange (h : Balanced b w entries) (hw : w.Sound entries n) {a : Allocator (geometry k)}
    {held leaked : List Token} (hw' : ((w.setAllocator k a).setTokens k held leaked).Sound entries n)
    (hperm : (w.held k ++ w.leaked k).Perm (held ++ leaked)) :
    Balanced b ((w.setAllocator k a).setTokens k held leaked) entries := by
  have hturnover := h.turnover k
  rw [hw.length_lent, hperm.length_eq] at hturnover
  have hrevised := h.revise hw' ((h.tokens k).trans hperm) hturnover
  rwa [b.revise_self] at hrevised

/-- An arena has a new account when it has lent nothing. -/
theorem Balanced.reset (h : Balanced b w entries) {a : Allocator (geometry k)} {held leaked : List Token}
    (hw' : ((w.setAllocator k a).setTokens k held leaked).Sound entries n)
    (hnone : held ++ leaked ++ nodeTokens hostOf entries n k = []) :
    Balanced (b.revise k {}) ((w.setAllocator k a).setTokens k held leaked) entries := by
  obtain ⟨htokens, hnodes⟩ := List.append_eq_nil_iff.mp hnone
  apply h.revise hw'
  · rw [htokens]
  · rw [htokens, hnodes]
    rfl

section Exact

variable (hg : ∀ k, (geometry k).Exact)
include hg

theorem Balanced.init (h : Balanced b w entries) (hw : w.Sound entries n) (capacity : UInt64)
    (hok : w.Allowed (.init k capacity)) :
    Balanced (b.note hostOf (.init k capacity, (w.perform (.init k capacity)).1))
      (w.perform (.init k capacity)).2 entries := by
  have hw' := (hw.perform_other hg rfl hok).sound
  have hsame (a : Allocator (geometry k)) : w.setAllocator k a =
    (w.setAllocator k a).setTokens k (w.held k) (w.leaked k) := (setTokens_self _ k).symm
  rcases (w.allocators k).init_cases capacity with ⟨fault, store, he, -⟩ | ⟨arena, store, he, hbare, -⟩
  · simp only [World.perform, he] at hw' ⊢
    rw [hsame] at hw' ⊢
    exact h.exchange hw hw' (.refl _)
  · simp only [World.perform, he] at hw' ⊢
    rw [hsame] at hw' ⊢
    exact h.reset hw' (hw.loans_bare hbare)

theorem Balanced.deinit (h : Balanced b w entries) (hw : w.Sound entries n) (hok : w.Allowed (.deinit k)) :
    Balanced (b.note hostOf (.deinit k, (w.perform (.deinit k)).1)) (w.perform (.deinit k)).2 entries := by
  have hw' := (hw.perform_other hg rfl hok).sound
  have hbare : ((w.perform (.deinit k)).2.allocators k).space = none := by
    simp only [World.perform, setTokens, setAllocator, Function.update_self]
    rw [Allocator.deinit_eq]
  have hnone := hw'.loans_bare hbare
  simp only [World.perform, loans, setTokens, Function.update_self] at hw' hnone ⊢
  exact h.reset hw' hnone

theorem Balanced.acquire (h : Balanced b w entries) (hw : w.Sound entries n) (size : UInt64) :
    Balanced (b.note hostOf (.acquire k size, (w.perform (.acquire k size)).1)) (w.perform (.acquire k size)).2
      entries := by
  have hok : w.Allowed (.acquire k size) := trivial
  have hw' := (hw.perform_other hg rfl hok).sound
  rcases he : (w.allocators k).acquire size with ⟨fault | t, a⟩
  · simp only [World.perform, he] at hw' ⊢
    rw [← setTokens_self (w.setAllocator k a) k] at hw' ⊢
    exact h.exchange hw hw' (.refl _)
  · simp only [World.perform, he] at hw' ⊢
    exact h.trade hw (some t) none (fun u hu => absurd hu (Option.not_mem_none u)) hw'

theorem Balanced.release (h : Balanced b w entries) (hw : w.Sound entries n)
    (hok : w.Allowed (.release k owner t)) :
    Balanced (b.note hostOf (.release k owner t, (w.perform (.release k owner t)).1))
      (w.perform (.release k owner t)).2 entries := by
  have hw' := (hw.perform_other hg rfl hok).sound
  have ht : t ∈ w.held owner := hok
  by_cases hown : owner = k
  · subst hown
    obtain ⟨a, he, -⟩ := hw.release_own ht (.release owner owner t) rfl rfl
    simp only [World.perform, he] at hw' ⊢
    exact h.trade hw none (some t) (fun t' ht' => Option.mem_some_iff.mp ht' ▸ ht) hw'
  · obtain ⟨fault, he, -⟩ := hw.release_foreign hown ht (.release k owner t) rfl
    simp only [World.perform, he] at hw' ⊢
    rw [setAllocator_self, ← setAllocator_self w owner] at hw' ⊢
    exact h.exchange hw hw' (((List.perm_cons_erase ht).append_right _).trans List.perm_middle.symm)

omit hg in
/-- A token that is refused is handed back or given up. -/
theorem refused_perm {t? : Option Token} (hok : ∀ t ∈ t?, t ∈ w.held owner) {returned : Option Token}
    (hreturned : returned = t? ∨ returned = none) :
    (w.held owner ++ w.leaked owner).Perm (returned.toList ++ t?.elim (w.held owner) (w.held owner).erase ++
      if returned.isSome then w.leaked owner else t?.toList ++ w.leaked owner) := by
  cases t? with
  | none =>
    obtain rfl : returned = none := by rcases hreturned with h | h <;> exact h
    exact .refl _
  | some t =>
    have hperm := (List.perm_cons_erase (hok t rfl)).append_right (w.leaked owner)
    rcases hreturned with rfl | rfl
    · exact hperm
    · exact hperm.trans List.perm_middle.symm

theorem Balanced.resize (h : Balanced b w entries) (hw : w.Sound entries n) (t? : Option Token) (size : UInt64)
    (hok : w.Allowed (.resize k owner t? size)) :
    Balanced (b.note hostOf (.resize k owner t? size, (w.perform (.resize k owner t? size)).1))
      (w.perform (.resize k owner t? size)).2 entries := by
  have hw' := (hw.perform_other hg rfl hok).sound
  have hheld : ∀ t ∈ t?, t ∈ w.held owner := by
    rintro t ⟨⟩
    exact hok
  rcases he : (w.allocators k).resize t? size with ⟨refused | t'?, a⟩
  · obtain ⟨rfl, hreturned⟩ := Allocator.resize_error he
    simp only [World.perform, he] at hw' ⊢
    rw [setAllocator_self, ← setAllocator_self w owner] at hw' ⊢
    refine h.exchange hw hw' (refused_perm hheld ?_)
    rw [hreturned]
    split
    · exact Or.inl rfl
    · exact Or.inr rfl
  · have hown : owner = k := by
      cases t? with
      | none => exact hok
      | some t =>
        by_contra hne
        rw [(Allocator.refuses_outside (hw.outside hne (Sound.mem_loans_held w entries n hok))).resize] at he
        cases he
    subst hown
    simp only [World.perform, he] at hw' ⊢
    exact h.trade hw t'? t? hheld hw'

/-- A call that is about no list keeps the accounts balanced. -/
theorem Balanced.other (h : Balanced b w entries) (hw : w.Sound entries n) (hcall : call.isList = false)
    (hok : w.Allowed call) : Balanced (b.note hostOf (call, (w.perform call).1)) (w.perform call).2 entries := by
  have hw' := (hw.perform_other hg hcall hok).sound
  cases call with
  | init k capacity => exact h.init hg hw capacity hok
  | deinit k => exact h.deinit hg hw hok
  | acquire k size => exact h.acquire hg hw size
  | release k owner t => exact h.release hg hw hok
  | resize k owner t? size => exact h.resize hg hw t? size hok
  | leak k t =>
    simp only [World.perform] at hw' ⊢
    rw [← setAllocator_self w k] at hw' ⊢
    exact h.exchange hw hw' (((List.perm_cons_erase hok).append_right _).trans List.perm_middle.symm)
  | recover k address =>
    cases he : (w.allocators k).recover address with
    | error fault =>
      simp only [World.perform, he]
      exact h
    | ok t =>
      by_cases hmem : t ∈ w.leaked k
      · simp only [World.perform, he, if_pos hmem] at hw' ⊢
        rw [← setAllocator_self w k] at hw' ⊢
        exact h.exchange hw hw' (((List.perm_cons_erase hmem).append_left _).trans List.perm_middle)
      · simp only [World.perform, he, if_neg hmem]
        exact h
  | usage k => exact h
  | write k t place bytes =>
    simp only [World.perform] at hw' ⊢
    rw [← setTokens_self (w.setAllocator k _) k] at hw' ⊢
    exact h.exchange hw hw' (.refl _)
  | list i call => cases hcall

/-! ## Calls on lists -/

omit hg in
theorem length_nodeTokens (hi : i < n) (entries : Nat → List Entry) (es : List Entry) :
    (nodeTokens hostOf (Function.update entries i es) n (hostOf i)).length + (entries i).length =
      (nodeTokens hostOf entries n (hostOf i)).length + es.length := by
  have hafter : (nodeTokens hostOf (Function.update entries i es) n (hostOf i)).length = _ :=
    (nodeTokens_split hi entries es).length_eq
  have hbefore : (nodeTokens hostOf (Function.update entries i (entries i)) n (hostOf i)).length = _ :=
    (nodeTokens_split hi entries (entries i)).length_eq
  rw [Function.update_eq_self] at hbefore
  rw [hafter, hbefore, List.length_append, List.length_append, List.length_map, List.length_map]
  omega

/-- A call on a list keeps the accounts balanced. -/
theorem Balanced.list (h : Balanced b w entries) (hw : w.Sound entries n) (hi : i < n) (call : ListCall) :
    Balanced (b.note hostOf (.list i call, (w.perform (.list i call)).1)) (w.perform (.list i call)).2
      (Function.update entries i (w.played entries i call).2) := by
  obtain ⟨hreply, hadvances⟩ := hw.list (hg _) hi call
  have hstep := hadvances.step
  have hlent := hadvances.sound.length_lent (hostOf i)
  have hlent₀ := hw.length_lent (hostOf i)
  have hnodes := @length_nodeTokens hostOf i n hi entries (w.played entries i call).2
  have hturnover := h.turnover (hostOf i)
  rw [hreply] at hstep ⊢
  obtain ⟨after, hlist, hafter⟩ := SequenceStep.list_inv hstep
  -- What the chain gains and loses is what its sequence does.
  have hlength := hlist.length_eq
  have hsame := congrFun hafter i
  rw [sequences_update, Function.update_self, Function.update_self] at hsame
  rw [← hsame, sequences, List.length_map, List.length_map] at hlength
  have hheld : (w.perform (.list i call)).2.held = w.held := rfl
  have hleaked : (w.perform (.list i call)).2.leaked = w.leaked := rfl
  rw [hheld, hleaked] at hlent
  refine ⟨fun j => ?_, fun k => ?_, fun k => ?_⟩
  · simp only [Accounts.note]
    by_cases hj : j = i
    · subst hj
      rw [Function.update_self, Function.update_self, h.nodes]
      omega
    · rw [Function.update_of_ne hj, Function.update_of_ne hj]
      exact h.nodes j
  · have htokens := h.tokens k
    rw [hheld, hleaked]
    by_cases hk : k = hostOf i
    · subst hk
      simp only [Accounts.note, Accounts.revise, Function.update_self, Account.serve]
      exact htokens
    · simp only [Accounts.note, Accounts.revise, Function.update_of_ne hk]
      exact htokens
  · by_cases hk : k = hostOf i
    · subst hk
      simp only [Accounts.note, Accounts.revise, Function.update_self, Account.serve, h.nodes]
      omega
    · have hother : (w.perform (.list i call)).2.allocators k = w.allocators k := allocators_setList_of_ne hk _ _
      simp only [Accounts.note, Accounts.revise, Function.update_of_ne hk, hother]
      exact h.turnover k

/-! ## Runs -/

omit hg in
theorem accounts_concat (history : List (Call × Reply)) (x : Call × Reply) :
    accounts hostOf (history ++ [x]) = (accounts hostOf history).note hostOf x := List.foldl_concat ..

/-- After every run, the accounts are balanced. -/
theorem Runs.balanced {stores : Nat → BackingStore} {history : List (Call × Reply)} (h : Runs stores history w) :
    ∃ entries n, w.Sound entries n ∧ Balanced (accounts hostOf history) w entries := by
  induction h with
  | start => exact ⟨_, 0, .start stores, .start stores⟩
  | @step history w call h hok ih =>
    obtain ⟨entries, n, hw, hbalanced⟩ := ih
    rw [accounts_concat]
    cases hcall : call.isList with
    | false => exact ⟨entries, n, (hw.perform_other hg hcall hok).sound, hbalanced.other hg hw hcall hok⟩
    | true =>
      cases call with
      | list i call =>
        have hw := hw.mono (Nat.le_max_left n (i + 1))
        have hi : i < max n (i + 1) := Nat.le_max_right _ _
        exact ⟨_, _, (hw.list (hg _) hi call).2.sound, hbalanced.list hg hw hi call⟩
      | _ => cases hcall

/-- What `usage` tells of allocator `k` after a run, if its blocks are those of `s`. The blocks and their headers
fill the arena. As many are handed out as were acquired and not released since the arena was claimed, and the
tokens of those blocks, which users have or nodes hold, sum up to what is handed out. The free blocks are those of
the chain, the largest of them included, and there is at most one more of them than of the others. -/
structure Conserves (w : World geometry hostOf) (history : List (Call × Reply)) (k : Nat)
    (s : BlockSpace (geometry k)) (usage : Usage) : Prop where
  performs : w.perform (.usage k) = (.usage (.ok usage), w)
  capacity : usage.capacity = s.capacity
  fills : usage.allocatedBytes.toNat + usage.freeBytes.toNat + usage.overhead.toNat = usage.capacity.toNat
  overhead : usage.overhead.toNat =
    (geometry k).headerSize.toNat * (usage.allocatedBlocks.toNat + usage.freeBlocks.toNat)
  turnover : ((accounts hostOf history).account k).acquired =
    ((accounts hostOf history).account k).released + usage.allocatedBlocks.toNat
  outstanding : ∃ n toks, (∀ i, n ≤ i → (w.lists i).isEmpty = true) ∧
    toks = ((accounts hostOf history).account k).tokens ++ w.nodeLoans n k ∧
    toks.Perm (s.allocated.map s.loan) ∧ toks.length = usage.allocatedBlocks.toNat ∧
    (toks.map fun t => t.size.toNat).sum = usage.allocatedBytes.toNat
  freeBlocks : usage.freeBlocks.toNat = s.freeChain.length
  freeBytes : usage.freeBytes.toNat = (s.freeChain.map fun b => b.size.toNat).sum
  largest : ∀ b ∈ s.freeChain, b.size ≤ usage.largestFree
  attained : s.freeChain ≠ [] → ∃ b ∈ s.freeChain, b.size = usage.largestFree
  full : usage.largestFree = 0 ↔ s.freeChain = []
  apart : usage.freeBlocks.toNat ≤ usage.allocatedBlocks.toNat + 1

/-- After every run, usage conserves the arena. -/
theorem Runs.usage_conserves {stores : Nat → BackingStore} {history : List (Call × Reply)}
    (h : Runs stores history w) {s : BlockSpace (geometry k)}
    (hs : (w.allocators k).space = some s) : ∃ usage, w.Conserves history k s usage := by
  obtain ⟨entries, n, hw, hbalanced⟩ := h.balanced hg
  obtain ⟨ts, hsound⟩ := (hw.lends k).sound hs
  have htells := hsound.usage_tells
  have hlent : (w.allocators k).lent = s.allocated.map s.loan := by
    unfold Allocator.lent
    rw [hs]
  have htokens : (((accounts hostOf history).account k).tokens ++ w.nodeLoans n k).Perm
      (s.allocated.map s.loan) := by
    rw [← hlent]
    exact ((hbalanced.tokens k).append_right _).trans (hw.owners k)
  refine ⟨s.usage, ?_, htells.capacity, ?_, ?_, ?_, ⟨n, _, fun i hi => ?_, rfl, htokens, ?_, ?_⟩, htells.freeBlocks,
    htells.freeBytes, htells.largest, htells.attained, htells.full, ?_⟩
  · simp only [World.perform, Allocator.usage, hs]
  · rw [htells.allocatedBytes, htells.freeBytes, htells.overhead, htells.capacity]
    exact hsound.covers
  · rw [htells.overhead, htells.allocatedBlocks, htells.freeBlocks]
    rfl
  · rw [hbalanced.turnover, hlent, List.length_map, htells.allocatedBlocks]
  · rw [NodeList.isEmpty_eq (hw.holds i), hw.bounded i hi]
    rfl
  · rw [htokens.length_eq, List.length_map, htells.allocatedBlocks]
  · rw [(htokens.map _).sum_eq, List.map_map, htells.allocatedBytes]
    rfl
  · rw [htells.allocatedBlocks, htells.freeBlocks]
    exact hsound.free_le

end Exact

theorem tiny_conserves : ∃ history s usage,
    history.map Prod.fst = [.init 0 256, .acquire 0 20, .list 0 (.insertFront 7)] ∧
      (tiny.allocators 0).space = some s ∧ tiny.Conserves history 0 s usage := by
  obtain ⟨history, hcalls, hruns⟩ := tiny_runs
  obtain ⟨s, hs⟩ := tiny_space
  obtain ⟨usage, husage⟩ := hruns.usage_conserves (fun _ => Geometry.standard_exact) hs
  exact ⟨history, s, usage, hcalls, hs, husage⟩

end World

end ArenaHeap
