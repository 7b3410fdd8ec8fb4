import ArenaHeap.Proofs.Chains.Basic
import ArenaHeap.Proofs.Chains.Slices

/-!
# The operations of lists on chains

* `NodeList.Leaves` : the list, the host and the chain that an operation leaves, and the tokens that it
  spares;
* `link_spec` : the link in front of a place is redirected;
* `Holds.putBehind`, `Holds.putInFront`, `Holds.takeOut` : nodes come and go in the middle of a chain;
* `Holds.linkOver`, `Holds.unlinks` : a node is linked over before it goes;
* `insertFront_cases`, `insertAfter_cases`, `insertBefore_cases`, `delete_cases`, `clear_spec` : the edits,
  and `insert_misses` for a reference that means no node;
* `search_eq`, `count_eq`, `values_eq`, `isEmpty_eq` : the questions.
-/

namespace ArenaHeap

open Entry

variable {g : Geometry} {es as bs : List Entry} {x : Entry} {rest : List Token}

/-! ## Finding nodes -/

section Finding

variable {q : Entry → Bool} {q' : Placed → Bool} {link : Option UInt64}

theorem Entry.span_placed (hq : ∀ e next, q' (e.withLink next) = q e) (has : ∀ e ∈ as, q e = false)
    (hx : q x = true) : (placed link (as ++ x :: bs)).span (fun p => !q' p) =
      (placed (some x.token.address) as, x.withLink (first link bs) :: placed link bs) := by
  rw [placed_append, placed]
  refine span_append_of ?_ ?_
  · intro p hp
    obtain ⟨e, he, next, rfl⟩ := mem_placed hp
    rw [hq, has e he]
    rfl
  · intro p hp
    rw [← Option.mem_some_iff.mp hp, hq, hx]
    rfl

theorem Entry.span_placed_of_forall (hq : ∀ e next, q' (e.withLink next) = q e)
    (hes : ∀ e ∈ es, q e = false) :
    (placed link es).span (fun p => !q' p) = (placed link es, []) := by
  have hall : ∀ p ∈ placed link es, (!q' p) = true := fun p hp => by
    obtain ⟨e, he, next, rfl⟩ := mem_placed hp
    rw [hq, hes e he]
    rfl
  have hspan := @span_append_of _ _ _ [] hall (by simp)
  rwa [List.append_nil] at hspan

theorem Entry.find?_placed (hq : ∀ e next, q' (e.withLink next) = q e) (has : ∀ e ∈ as, q e = false)
    (hx : q x = true) : (placed link (as ++ x :: bs)).find? q' = some (x.withLink (first link bs)) := by
  rw [List.find?_eq_some_iff_append]
  refine ⟨by rw [hq, hx], placed (some x.token.address) as, placed link bs, ?_, ?_⟩
  · rw [placed_append, placed]
    rfl
  · intro p hp
    obtain ⟨e, he, next, rfl⟩ := mem_placed hp
    rw [hq, has e he]
    rfl

theorem Entry.find?_placed_of_forall (hq : ∀ e next, q' (e.withLink next) = q e)
    (hes : ∀ e ∈ es, q e = false) : (placed link es).find? q' = none := by
  rw [List.find?_eq_none]
  intro p hp
  obtain ⟨e, he, next, rfl⟩ := mem_placed hp
  rw [hq, hes e he]
  exact Bool.false_ne_true

theorem Entry.first_match (q : Entry → Bool) (es : List Entry) : (∀ e ∈ es, q e = false) ∨
    ∃ as x bs, es = as ++ x :: bs ∧ q x = true ∧ ∀ e ∈ as, q e = false := by
  cases hfind : es.find? q with
  | none => exact Or.inl fun e he => Bool.eq_false_iff.mpr (List.find?_eq_none.mp hfind e he)
  | some x =>
    obtain ⟨hx, as, bs, rfl, has⟩ := List.find?_eq_some_iff_append.mp hfind
    exact Or.inr ⟨as, x, bs, rfl, hx, fun e he => by simpa using has e he⟩

end Finding

/-- The address of the last entry. -/
def Entry.last (es : List Entry) : Option UInt64 := es.getLast?.map fun e => e.token.address

theorem Entry.getLast?_placed (link : Option UInt64) (es : List Entry) :
    (placed link es).getLast?.map Placed.address = last es := by
  unfold last
  rw [← List.getLast?_map, ← List.getLast?_map, map_address_placed]

theorem Entry.first_ne_zero {a : Allocator g} {toks : List Token} {link : Option UInt64}
    (hlent : a.Lends toks) (hsub : ∀ e ∈ es, e.token ∈ toks) (hlink : link ≠ some 0) :
    first link es ≠ some 0 := by
  cases es with
  | nil => exact hlink
  | cons e es =>
    have hne := hlent.address_ne_zero (hsub e List.mem_cons_self)
    exact fun he => hne (Option.some.inj he)

namespace NodeList

variable {l l' : NodeList} {h h' h₁ : Host g} {e : Entry} {value : Int32} {kept : List Token}

/-- The list, the host and the chain that an operation leaves. The operation spares the tokens `kept`. -/
structure Leaves (h : Host g) (kept rest : List Token) (l' : NodeList) (h' : Host g) (es : List Entry) :
    Prop where
  holds : l'.Holds h'.allocator es
  lends : h'.allocator.Lends (es.map Entry.token ++ rest)
  spares : h.allocator.Spares h'.allocator kept
  unreleased : h'.unreleased = h.unreleased

/-! ## Linking -/

/-- The last of some nodes, or the head of the list, is linked to `next`. -/
theorem link_spec {link next : Option UInt64} (hlent : h.allocator.Lends (as.map Entry.token ++ rest))
    (hhead : l.head = first link as) (hlinked : Linked h.allocator link as) (hnext : next ≠ some 0) :
    ∃ l' a', l.link h (last as) next = (l', { h with allocator := a' }) ∧ l'.head = first next as ∧
      Linked a' next as ∧ a'.Lends (as.map Entry.token ++ rest) ∧
      h.allocator.Spares a' (as.dropLast.map Entry.token ++ rest) := by
  rcases List.eq_nil_or_concat' as with rfl | ⟨as, x, rfl⟩
  · exact ⟨⟨next⟩, h.allocator, rfl, rfl, trivial, hlent, .refl _ _⟩
  · rw [linked_append] at hlinked
    have hlast : last (as ++ [x]) = some x.token.address := by rw [last, List.getLast?_concat]; rfl
    have hperm : ((as ++ [x]).map Entry.token ++ rest).Perm (x.token :: (as.map Entry.token ++ rest)) := by
      rw [List.map_append, List.append_assoc]
      exact List.perm_middle
    obtain ⟨hlent', hspares, hnode⟩ := Host.setLink_spec (hlent.perm hperm) hlinked.2.1.1 hnext
    refine ⟨l, (h.setLink x.token.address next).allocator, ?_, ?_, ?_, hlent'.perm hperm.symm, ?_⟩
    · rw [hlast]
      rfl
    · rw [hhead, first_append, first_append]
      rfl
    · rw [linked_append]
      refine ⟨hlinked.1.spares hspares ?_, ⟨hlinked.2.1.1, ?_⟩, trivial⟩
      · intro e he
        exact List.mem_append_left _ (List.mem_map_of_mem he)
      · rw [hnode, hlinked.2.1.2]
        rfl
    · rw [List.dropLast_concat]
      exact hspares

/-! ## Inserting -/

theorem Holds.spares {a a' : Allocator g} {toks : List Token} (hl : l.Holds a es) (hs : a.Spares a' toks)
    (hsub : ∀ e ∈ es, e.token ∈ toks) : l.Holds a' es := ⟨hl.head, hl.linked.spares hs hsub⟩

theorem mem_tokens {e : Entry} (he : e ∈ es) (rest : List Token) : e.token ∈ es.map Entry.token ++ rest :=
  List.mem_append_left _ (List.mem_map_of_mem he)

theorem tokens_middle (as : List Entry) (x : Entry) (bs : List Entry) (rest : List Token) :
    ((as ++ x :: bs).map Entry.token ++ rest).Perm (x.token :: ((as ++ bs).map Entry.token ++ rest)) := by
  rw [List.map_append, List.map_append, List.append_assoc, List.append_assoc]
  exact List.perm_middle

theorem mem_tokens_of_dropLast {as : List Entry} {toks : List Token} {t : Token}
    (ht : t ∈ as.dropLast.map Entry.token ++ toks) : t ∈ as.map Entry.token ++ toks := by
  rcases List.mem_append.mp ht with ht | ht
  · obtain ⟨e, he, rfl⟩ := List.mem_map.mp ht
    exact mem_tokens (List.dropLast_subset _ he) toks
  · exact List.mem_append_right _ ht

theorem Holds.nodes_placed (hl : l.Holds h.allocator es)
    (hp : h.Places h₁ (es.map Entry.token ++ rest) value e) : l.nodes h₁.allocator = placed none es := by
  have hl₁ := hl.spares hp.spares fun e he => mem_tokens he rest
  exact hl₁.nodes_eq (hp.lends.perm List.perm_middle.symm)

/-- A new node is given up again. -/
theorem Holds.discard (hl : l.Holds h.allocator es)
    (hp : h.Places h₁ (es.map Entry.token ++ rest) value e) :
    Leaves h (es.map Entry.token ++ rest) rest l (h₁.dispose e.token.address) es := by
  obtain ⟨a', -, hdispose, hlent, hspares⟩ := Host.dispose_spec hp.lends
  have hboth := hp.spares.trans hspares
  rw [hdispose]
  exact ⟨hl.spares hboth fun e he => mem_tokens he rest, hlent, hboth, hp.unreleased⟩

/-- A new node is linked to the nodes `bs`, and the node `x` in front of them to it. -/
theorem Holds.putBehind (hl : l.Holds h.allocator (as ++ x :: bs))
    (hp : h.Places h₁ ((as ++ x :: bs).map Entry.token ++ rest) value e) :
    Leaves h ((as ++ bs).map Entry.token ++ rest) rest l
      ((h₁.setLink e.token.address (first none bs)).setLink x.token.address (some e.token.address))
      (as ++ x :: e :: bs) := by
  have hmiddle := tokens_middle as x bs rest
  have hsub : ∀ t ∈ (as ++ bs).map Entry.token ++ rest, t ∈ (as ++ x :: bs).map Entry.token ++ rest :=
    fun t ht => hmiddle.mem_iff.mpr (List.mem_cons_of_mem _ ht)
  have hxmem : x.token ∈ (as ++ x :: bs).map Entry.token ++ rest := mem_tokens (by simp) rest
  have hne : first none bs ≠ some 0 := by
    refine first_ne_zero hp.lends ?_ nofun
    intro e he
    exact List.mem_cons_of_mem _ (mem_tokens (List.mem_append_right _ (List.mem_cons_of_mem _ he)) rest)
  obtain ⟨hlinkedAs, ⟨hxroom, hxnode⟩, hlinkedBs⟩ := linked_append.mp hl.linked
  obtain ⟨hlent₂, hspares₂, hnode₂⟩ := hp.setLink hne
  have hperm := (hmiddle.cons e.token).trans (List.Perm.swap _ _ _)
  obtain ⟨hlent₃, hspares₃, hnode₃⟩ := Host.setLink_spec (hlent₂.perm hperm) hxroom hp.address_ne_zero
  have hspares := (hspares₂.mono hsub).trans (hspares₃.mono fun t ht => List.mem_cons_of_mem _ ht)
  refine ⟨⟨?_, ?_⟩, ?_, hspares, hp.unreleased⟩
  · rw [hl.head, first_append, first_append]
    rfl
  · refine linked_append.mpr ⟨?_, ⟨hxroom, ?_⟩, ⟨hp.room, ?_⟩, ?_⟩
    · exact hlinkedAs.spares hspares fun e he => mem_tokens (List.mem_append_left _ he) rest
    · rw [hnode₃, hspares₂.node hxmem hxroom, hxnode]
      rfl
    · rw [hspares₃.node List.mem_cons_self hp.room, hnode₂]
    · exact hlinkedBs.spares hspares fun e he => mem_tokens (List.mem_append_right _ he) rest
  · refine hlent₃.perm (List.Perm.symm ?_)
    exact (tokens_middle as x (e :: bs) rest).trans ((tokens_middle as e bs rest).cons _)

/-- A new node is linked to the node `x`, and the last of the nodes `as` in front of `x` to it. -/
theorem Holds.putInFront (hl : l.Holds h.allocator (as ++ x :: bs))
    (hp : h.Places h₁ ((as ++ x :: bs).map Entry.token ++ rest) value e) :
    ∃ l' h', l.link (h₁.setLink e.token.address (some x.token.address)) (last as) (some e.token.address) =
      (l', h') ∧
      Leaves h ((as.dropLast ++ x :: bs).map Entry.token ++ rest) rest l' h' (as ++ e :: x :: bs) := by
  have hbehind : ∀ t ∈ (x :: bs).map Entry.token ++ rest, t ∈ (as ++ x :: bs).map Entry.token ++ rest := by
    intro t ht
    rw [List.map_append, List.append_assoc]
    exact List.mem_append_right _ ht
  have hxmem : x.token ∈ (as ++ x :: bs).map Entry.token ++ rest := mem_tokens (by simp) rest
  have hne : some x.token.address ≠ some 0 := fun he =>
    hp.lends.address_ne_zero (List.mem_cons_of_mem _ hxmem) (Option.some.inj he)
  have hhead : l.head = first (some x.token.address) as := by
    rw [hl.head, first_append]
    rfl
  obtain ⟨hlinkedAs, ⟨hxroom, hxnode⟩, hlinkedBs⟩ := linked_append.mp hl.linked
  obtain ⟨hlent₂, hspares₂, hnode₂⟩ := hp.setLink hne
  have hperm : (e.token :: ((as ++ x :: bs).map Entry.token ++ rest)).Perm
      (as.map Entry.token ++ e.token :: ((x :: bs).map Entry.token ++ rest)) := by
    rw [List.map_append, List.append_assoc]
    exact List.perm_middle.symm
  have hlinkedAs₂ := hlinkedAs.spares hspares₂ fun e he => mem_tokens (List.mem_append_left _ he) rest
  obtain ⟨l', a', hlink, hhead', hlinked', hlent₃, hspares₃⟩ :=
    link_spec (hlent₂.perm hperm) hhead hlinkedAs₂ hp.address_ne_zero
  have hspares : h.allocator.Spares a' ((x :: bs).map Entry.token ++ rest) :=
    (hspares₂.mono hbehind).trans
      (hspares₃.mono fun t ht => List.mem_append_right _ (List.mem_cons_of_mem _ ht))
  refine ⟨l', _, hlink, ⟨?_, ?_⟩, ?_, ?_, hp.unreleased⟩
  · rw [hhead', first_append]
    rfl
  · refine linked_append.mpr ⟨hlinked', ⟨hp.room, ?_⟩, ⟨hxroom, ?_⟩, ?_⟩
    · rw [hspares₃.node (List.mem_append_right _ List.mem_cons_self) hp.room, hnode₂]
      rfl
    · rw [hspares.node List.mem_cons_self hxroom, hxnode]
    · exact hlinkedBs.spares hspares fun e he => List.mem_cons_of_mem _ (mem_tokens he rest)
  · refine hlent₃.perm (List.Perm.of_eq ?_)
    simp
  · rw [List.map_append, List.append_assoc]
    refine (hspares₂.mono ?_).trans (hspares₃.mono ?_)
    · intro t ht
      rw [List.map_append, List.append_assoc]
      exact mem_tokens_of_dropLast ht
    · intro t ht
      rcases List.mem_append.mp ht with ht | ht
      · exact List.mem_append_left _ ht
      · exact List.mem_append_right _ (List.mem_cons_of_mem _ ht)

section Exact

variable (hg : g.Exact)
include hg

theorem insertFront_cases (hl : l.Holds h.allocator es) (hlent : h.allocator.Lends (es.map Entry.token ++ rest))
    (value : Int32) :
    (∃ fault, (h.allocator.acquire Node.byteSize).1 = .error fault ∧
        l.insertFront h value = (.error (.allocationExhausted fault), l, h)) ∨
      ∃ (e : Entry) (l' : NodeList) (h' : Host g), l.insertFront h value = (.ok e.ref, l', h') ∧
        h.Makes value e ∧ Leaves h (es.map Entry.token ++ rest) rest l' h' (e :: es) := by
  rcases Host.place_cases hg hlent value with
    ⟨fault, hacquire, hfault⟩ | ⟨e, h₁, hplace, hp⟩
  · exact Or.inl ⟨fault, hacquire, by simp only [insertFront, hfault]⟩
  right
  have hne : l.head ≠ some 0 := by
    rw [hl.head]
    exact first_ne_zero hlent (fun e he => mem_tokens he rest) nofun
  obtain ⟨hlent₂, hspares, hnode⟩ := hp.setLink hne
  refine ⟨e, ⟨e.token.address⟩, h₁.setLink e.token.address l.head, ?_, hp.toMakes, ⟨rfl, ⟨hp.room, ?_⟩, ?_⟩,
    hlent₂, hspares, hp.unreleased⟩
  · simp only [insertFront, hplace]
    rfl
  · rw [hnode, hl.head]
  · exact hl.linked.spares hspares fun e he => mem_tokens he rest

/-- What `insertAfter` can do for a reference: nothing because there is no room, nothing because no
node is meant, or put a new node behind the one that is meant. -/
theorem insertAfter_cases (hl : l.Holds h.allocator es) (hlent : h.allocator.Lends (es.map Entry.token ++ rest))
    (r : Reference) (value : Int32) :
    (∃ fault, (h.allocator.acquire Node.byteSize).1 = .error fault ∧
        l.insertAfter h (some r) value = (.error (.allocationExhausted fault), l, h)) ∨
      (∃ e h', l.insertAfter h (some r) value = (.error .notFound, l, h') ∧ h.Makes value e ∧
        (∀ e ∈ es, e.ref.same r = false) ∧ Leaves h (es.map Entry.token ++ rest) rest l h' es) ∨
      ∃ (as bs : List Entry) (x e : Entry) (h' : Host g), es = as ++ x :: bs ∧ x.ref.same r = true ∧
        (∀ e ∈ as, e.ref.same r = false) ∧ l.insertAfter h (some r) value = (.ok e.ref, l, h') ∧
        h.Makes value e ∧
        Leaves h ((as ++ bs).map Entry.token ++ rest) rest l h' (as ++ x :: e :: bs) := by
  rcases Host.place_cases hg hlent value with
    ⟨fault, hacquire, hfault⟩ | ⟨e, h₁, hplace, hp⟩
  · exact Or.inl ⟨fault, hacquire, by simp only [insertAfter, hfault]⟩
  right
  have hnodes := hl.nodes_placed hp
  have hq (e : Entry) (next : Option UInt64) : (e.withLink next).ref.same r = e.ref.same r := rfl
  rcases first_match (fun e => e.ref.same r) es with hnone | ⟨as, x, bs, rfl, hx, has⟩
  · refine Or.inl ⟨e, _, ?_, hp.toMakes, hnone, hl.discard hp⟩
    simp only [insertAfter, hplace]
    rw [hnodes, find?_placed_of_forall hq hnone]
    rfl
  · refine Or.inr ⟨as, bs, x, e, _, rfl, hx, has, ?_, hp.toMakes, hl.putBehind hp⟩
    simp only [insertAfter, hplace]
    rw [hnodes, find?_placed hq has hx]
    rfl

/-- What `insertBefore` can do for a reference: nothing because there is no room, nothing because no
node is meant, or put a new node in front of the one that is meant. -/
theorem insertBefore_cases (hl : l.Holds h.allocator es)
    (hlent : h.allocator.Lends (es.map Entry.token ++ rest)) (r : Reference) (value : Int32) :
    (∃ fault, (h.allocator.acquire Node.byteSize).1 = .error fault ∧
        l.insertBefore h (some r) value = (.error (.allocationExhausted fault), l, h)) ∨
      (∃ e h', l.insertBefore h (some r) value = (.error .notFound, l, h') ∧ h.Makes value e ∧
        (∀ e ∈ es, e.ref.same r = false) ∧ Leaves h (es.map Entry.token ++ rest) rest l h' es) ∨
      ∃ (as bs : List Entry) (x e : Entry) (l' : NodeList) (h' : Host g), es = as ++ x :: bs ∧
        x.ref.same r = true ∧ (∀ e ∈ as, e.ref.same r = false) ∧
        l.insertBefore h (some r) value = (.ok e.ref, l', h') ∧ h.Makes value e ∧
        Leaves h ((as.dropLast ++ x :: bs).map Entry.token ++ rest) rest l' h' (as ++ e :: x :: bs) := by
  rcases Host.place_cases hg hlent value with
    ⟨fault, hacquire, hfault⟩ | ⟨e, h₁, hplace, hp⟩
  · exact Or.inl ⟨fault, hacquire, by simp only [insertBefore, hfault]⟩
  right
  have hnodes := hl.nodes_placed hp
  have hq (e : Entry) (next : Option UInt64) : (e.withLink next).ref.same r = e.ref.same r := rfl
  rcases first_match (fun e => e.ref.same r) es with hnone | ⟨as, x, bs, rfl, hx, has⟩
  · refine Or.inl ⟨e, _, ?_, hp.toMakes, hnone, hl.discard hp⟩
    simp only [insertBefore, hplace]
    rw [hnodes, span_placed_of_forall hq hnone]
    rfl
  · obtain ⟨l', h', hlink, hleaves⟩ := hl.putInFront hp
    refine Or.inr ⟨as, bs, x, e, l', h', rfl, hx, has, ?_, hp.toMakes, hleaves⟩
    simp only [insertBefore, hplace]
    rw [hnodes, span_placed hq has hx]
    simp only
    rw [getLast?_placed]
    exact congrArg _ hlink

/-- What an insertion does for a reference that means no node: a node is made in a new block, and the block
is released again. -/
theorem insert_misses (hl : l.Holds h.allocator es) (hlent : h.allocator.Lends (es.map Entry.token ++ rest))
    {t : Token} {a₁ : Allocator g} (hacquire : h.allocator.acquire Node.byteSize = (.ok t, a₁)) {r : Reference}
    (hnone : ∀ e ∈ es, e.ref.same r = false) (value : Int32) :
    ∃ a₂, (a₁.write t.address (Node.toBytes ⟨none, t.size, h.stamp, value⟩)).release t = (.ok (), a₂) ∧
      l.insertAfter h (some r) value =
        (.error .notFound, l, { h with allocator := a₂, stamp := h.stamp + 1 }) ∧
      l.insertBefore h (some r) value =
        (.error .notFound, l, { h with allocator := a₂, stamp := h.stamp + 1 }) := by
  rcases Host.place_cases hg hlent value with ⟨fault, hfault, -⟩ | ⟨e, h₁, hplace, hp⟩
  · rw [hacquire] at hfault
    cases hfault
  have htoken := hp.acquired
  rw [hacquire] at htoken
  obtain rfl := Except.ok.inj htoken
  have hmade : h₁ = { h with
      allocator := a₁.write e.token.address (Node.toBytes ⟨none, e.token.size, h.stamp, value⟩)
      stamp := h.stamp + 1 } := by
    simp only [Host.place, hacquire] at hplace
    exact (Prod.mk.inj hplace).2.symm
  obtain ⟨a₂, hrelease, hdispose, -⟩ := Host.dispose_spec hp.lends
  have hnodes := hl.nodes_placed hp
  have hq (e : Entry) (next : Option UInt64) : (e.withLink next).ref.same r = e.ref.same r := rfl
  have haddress : e.ref.address = e.token.address := rfl
  subst hmade
  refine ⟨a₂, hrelease, ?_, ?_⟩
  · simp only [insertAfter, hplace]
    rw [hnodes, find?_placed_of_forall hq hnone]
    simp only [haddress, hdispose]
  · simp only [insertBefore, hplace]
    rw [hnodes, span_placed_of_forall hq hnone]
    simp only [haddress, hdispose]

end Exact

/-! ## Removing -/

/-- The last of the nodes `as` in front of a node `x` is linked to what is behind `x`. -/
theorem Holds.linkOver (hl : l.Holds h.allocator (as ++ x :: bs))
    (hlent : h.allocator.Lends ((as ++ x :: bs).map Entry.token ++ rest)) :
    ∃ l' a', l.link h (last as) (first none bs) = (l', { h with allocator := a' }) ∧
      l'.head = first (first none bs) as ∧ Linked a' (first none bs) as ∧
      a'.Lends (x.token :: (as.map Entry.token ++ (bs.map Entry.token ++ rest))) ∧
      h.allocator.Spares a' (as.dropLast.map Entry.token ++ x.token :: (bs.map Entry.token ++ rest)) := by
  obtain ⟨hlinkedAs, -, -⟩ := linked_append.mp hl.linked
  have hne : first none bs ≠ some 0 := by
    refine first_ne_zero hlent ?_ nofun
    intro e he
    exact mem_tokens (List.mem_append_right _ (List.mem_cons_of_mem _ he)) rest
  have hsplit : (as ++ x :: bs).map Entry.token ++ rest =
      as.map Entry.token ++ x.token :: (bs.map Entry.token ++ rest) := by simp
  have hhead : l.head = first (some x.token.address) as := by
    rw [hl.head, first_append]
    rfl
  rw [hsplit] at hlent
  obtain ⟨l', a', hlink, hhead', hlinked', hlent', hspares⟩ := link_spec hlent hhead hlinkedAs hne
  exact ⟨l', a', hlink, hhead', hlinked', hlent'.perm List.perm_middle, hspares⟩

/-- When the first node that holds a value was linked over, its block is still handed out. -/
theorem Holds.unlinks (hl : l.Holds h.allocator es) (hlent : h.allocator.Lends (es.map Entry.token ++ rest))
    {before behind : List Placed} {target : Placed}
    (hspan : (l.nodes h.allocator).span (·.node.value != value) = (before, target :: behind)) :
    ∃ (t : Token) (toks : List Token), t.address = target.address ∧
      (l.link h (before.getLast?.map Placed.address) target.node.next).2.allocator.Lends (t :: toks) := by
  have hq (e : Entry) (next : Option UInt64) :
      ((e.withLink next).node.value == value) = (e.value == value) := rfl
  rw [hl.nodes_eq hlent] at hspan
  rcases first_match (fun e => e.value == value) es with hnone | ⟨as, x, bs, rfl, hx, has⟩
  · cases hspan.symm.trans (span_placed_of_forall hq hnone)
  · cases hspan.symm.trans (span_placed hq has hx)
    obtain ⟨l', a', hlink, -, -, hlent', -⟩ := hl.linkOver hlent
    refine ⟨x.token, as.map Entry.token ++ (bs.map Entry.token ++ rest), rfl, ?_⟩
    rw [getLast?_placed]
    show (l.link h (last as) (first none bs)).2.allocator.Lends _
    rw [hlink]
    exact hlent'

/-- The last of the nodes `as` in front of a node `x` is linked to what is behind `x`, and `x` is given
up. -/
theorem Holds.takeOut (hl : l.Holds h.allocator (as ++ x :: bs))
    (hlent : h.allocator.Lends ((as ++ x :: bs).map Entry.token ++ rest)) :
    ∃ l' h₁, l.link h (last as) (first none bs) = (l', h₁) ∧
      Leaves h ((as.dropLast ++ bs).map Entry.token ++ rest) rest l' (h₁.dispose x.token.address)
        (as ++ bs) := by
  obtain ⟨-, -, hlinkedBs⟩ := linked_append.mp hl.linked
  obtain ⟨l', a₁, hlink, hhead', hlinked', hlent₁, hspares₁⟩ := hl.linkOver hlent
  obtain ⟨a₂, -, hdispose, hlent₂, hspares₂⟩ := Host.dispose_spec (h := { h with allocator := a₁ }) hlent₁
  have hbehind : h.allocator.Spares a₂ (bs.map Entry.token ++ rest) :=
    (hspares₁.mono fun t ht => List.mem_append_right _ (List.mem_cons_of_mem _ ht)).trans
      (hspares₂.mono fun t ht => List.mem_append_right _ ht)
  refine ⟨l', _, hlink, ?_⟩
  rw [hdispose]
  refine ⟨⟨?_, ?_⟩, ?_, ?_, rfl⟩
  · rw [hhead', first_append]
  · refine linked_append.mpr ⟨hlinked'.spares hspares₂ fun e he => mem_tokens he _, ?_⟩
    exact hlinkedBs.spares hbehind fun e he => mem_tokens he rest
  · rw [List.map_append, List.append_assoc]
    exact hlent₂
  · rw [List.map_append, List.append_assoc]
    refine (hspares₁.mono ?_).trans (hspares₂.mono fun t ht => mem_tokens_of_dropLast ht)
    intro t ht
    rcases List.mem_append.mp ht with ht | ht
    · exact List.mem_append_left _ ht
    · exact List.mem_append_right _ (List.mem_cons_of_mem _ ht)

/-- What `delete` can do: nothing because no node holds the value, or remove the first that does. -/
theorem delete_cases (hl : l.Holds h.allocator es)
    (hlent : h.allocator.Lends (es.map Entry.token ++ rest)) (value : Int32) :
    (l.delete h value = (.error .notFound, l, h) ∧ ∀ e ∈ es, e.value ≠ value) ∨
      ∃ (as bs : List Entry) (x : Entry) (l' : NodeList) (h' : Host g), es = as ++ x :: bs ∧
        x.value = value ∧ (∀ e ∈ as, e.value ≠ value) ∧ l.delete h value = (.ok (), l', h') ∧
        Leaves h ((as.dropLast ++ bs).map Entry.token ++ rest) rest l' h' (as ++ bs) := by
  have hnodes := hl.nodes_eq hlent
  have hq (e : Entry) (next : Option UInt64) :
      ((e.withLink next).node.value == value) = (e.value == value) := rfl
  rcases first_match (fun e => e.value == value) es with hnone | ⟨as, x, bs, rfl, hx, has⟩
  · refine Or.inl ⟨?_, fun e he => by simpa using hnone e he⟩
    have hspan : (placed none es).span (fun p => p.node.value != value) = (placed none es, []) :=
      span_placed_of_forall hq hnone
    unfold delete
    rw [hnodes, hspan]
  · obtain ⟨l', h₁, hlink, hleaves⟩ := hl.takeOut hlent
    refine Or.inr ⟨as, bs, x, l', _, rfl, by simpa using hx, fun e he => by simpa using has e he, ?_, hleaves⟩
    have hspan : (placed none (as ++ x :: bs)).span (fun p => p.node.value != value) =
        (placed (some x.token.address) as, x.withLink (first none bs) :: placed none bs) :=
      span_placed hq has hx
    unfold delete
    rw [hnodes, hspan]
    simp only
    rw [getLast?_placed]
    show (Except.ok (), (l.link h (last as) (first none bs)).1,
      (l.link h (last as) (first none bs)).2.dispose x.token.address) = _
    rw [hlink]

theorem clearFrom_spec {fuel : Nat} (hlinked : Linked h.allocator none es)
    (hlent : h.allocator.Lends (es.map Entry.token ++ rest)) (hfuel : es.length ≤ fuel) :
    ∃ a', clearFrom fuel (first none es) h = { h with allocator := a' } ∧ a'.Lends rest ∧
      h.allocator.Spares a' rest := by
  induction es generalizing fuel h with
  | nil => exact ⟨h.allocator, by cases fuel <;> rfl, hlent, .refl _ _⟩
  | cons e es ih =>
    obtain ⟨fuel, rfl⟩ : ∃ n, fuel = n + 1 := ⟨fuel - 1, by rw [List.length_cons] at hfuel; omega⟩
    rw [List.length_cons] at hfuel
    obtain ⟨⟨hroom, hnode⟩, hrest⟩ := hlinked
    have hne : (none : Option UInt64) ≠ some 0 := nofun
    obtain ⟨hlent₁, hspares₁, -⟩ := Host.setLink_spec hlent hroom hne
    obtain ⟨a₂, -, hdispose, hlent₂, hspares₂⟩ := Host.dispose_spec hlent₁
    have hspares₁₂ := hspares₁.trans hspares₂
    have hle : es.length ≤ fuel := by omega
    obtain ⟨a₃, hclear, hlent₃, hspares₃⟩ := ih (h := { h.setLink e.token.address none with allocator := a₂ })
      (hrest.spares hspares₁₂ fun e he => mem_tokens he rest) hlent₂ hle
    refine ⟨a₃, ?_, hlent₃, (hspares₁₂.mono fun t ht => List.mem_append_right _ ht).trans hspares₃⟩
    unfold first
    rw [clearFrom, hnode, hdispose]
    exact hclear

theorem clear_spec (hl : l.Holds h.allocator es)
    (hlent : h.allocator.Lends (es.map Entry.token ++ rest)) :
    ∃ h', l.clear h = (⟨none⟩, h') ∧ Leaves h rest rest ⟨none⟩ h' [] := by
  obtain ⟨a', hclear, hlent', hspares⟩ := clearFrom_spec hl.linked hlent
    (length_le_nodeBound hlent (List.sublist_append_left _ _))
  refine ⟨{ h with allocator := a' }, ?_, ⟨rfl, trivial⟩, hlent', hspares, rfl⟩
  unfold clear
  rw [hl.head, hclear]

/-! ## Questions -/

variable {a : Allocator g}

theorem search_eq (hl : l.Holds a es) (hlent : a.Lends (es.map Entry.token ++ rest)) (value : Int32) :
    l.search a value = (es.map Entry.ref).find? (·.value == value) := by
  unfold search
  rw [hl.nodes_eq hlent, ← map_ref_placed none es, List.find?_map]
  rfl

theorem count_eq (hl : l.Holds a es) (hlent : a.Lends (es.map Entry.token ++ rest)) :
    l.count a = es.length := by
  unfold count
  rw [hl.nodes_eq hlent, length_placed]

theorem values_eq (hl : l.Holds a es) (hlent : a.Lends (es.map Entry.token ++ rest)) :
    l.values a = (es.map Entry.ref).map Reference.value := by
  unfold values
  rw [range, hl.nodes_eq hlent, ← map_ref_placed none es]
  exact slice_started none none _

theorem isEmpty_eq (hl : l.Holds a es) : l.isEmpty = es.isEmpty := by
  unfold isEmpty
  rw [hl.head]
  cases es <;> rfl

end NodeList

end ArenaHeap
