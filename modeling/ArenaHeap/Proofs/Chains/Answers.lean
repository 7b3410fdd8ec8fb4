import ArenaHeap.Proofs.Chains.Calls

/-!
# Answers of lists

* `NodeList.spared` : the tokens that a call may not touch;
* `NodeList.Answers` : what a call does to a list in memory: it is a step of the sequence, makes of the
  chain what it makes of a plain list, and spares all but its targets;
* `answer_spec` : every operation answers so;
* `answer_stamp` : the stamp after a call.
-/

namespace ArenaHeap

namespace NodeList

open Entry

variable {g : Geometry} {l l' : NodeList} {h h' : Host g} {es es' : List Entry} {rest : List Token}
  {call : ListCall} {reply : ListReply}

/-- The tokens that a call on the chain `es` may not touch, if `rest` are those of others. -/
def spared (call : ListCall) (es : List Entry) (rest : List Token) : List Token :=
  (es.map Entry.token ++ rest).filter fun t => t.address ∉ call.targets (placed none es)

theorem mem_spared {t : Token} : t ∈ spared call es rest ↔
    t ∈ es.map Entry.token ++ rest ∧ t.address ∉ call.targets (placed none es) := by
  unfold spared
  rw [List.mem_filter, decide_eq_true_eq]

/-- An operation is a step of the sequence, makes of the chain what it makes of a plain list, spares all
but its targets, and a node that it puts in is new. -/
structure Answers (h : Host g) (es : List Entry) (rest : List Token) (call : ListCall) (reply : ListReply)
    (l' : NodeList) (h' : Host g) (es' : List Entry) : Prop where
  leaves : Leaves h (spared call es rest) rest l' h' es'
  kept : ∀ t ∈ spared call es rest, t ∈ es'.map Entry.token ++ rest
  step : ListStep (h.allocator.acquire Node.byteSize).1 call reply (es.map Entry.ref) (es'.map Entry.ref)
  plays : call.play (h.allocator.acquire Node.byteSize).1 h.stamp es = (reply, es')
  fresh : ∀ r ∈ reply.newcomer?, ∃ e : Entry, e.ref = r ∧ es'.Perm (e :: es)

theorem Leaves.mono {kept kept' : List Token} (hleaves : Leaves h kept rest l' h' es)
    (hsub : ∀ t ∈ kept', t ∈ kept) : Leaves h kept' rest l' h' es :=
  ⟨hleaves.holds, hleaves.lends, hleaves.spares.mono hsub, hleaves.unreleased⟩

theorem Answers.of_same (hleaves : Leaves h (es.map Entry.token ++ rest) rest l' h' es)
    (hstep : ListStep (h.allocator.acquire Node.byteSize).1 call reply (es.map Entry.ref) (es.map Entry.ref))
    (hplays : call.play (h.allocator.acquire Node.byteSize).1 h.stamp es = (reply, es))
    (hreply : reply.newcomer? = none) : Answers h es rest call reply l' h' es := by
  refine ⟨hleaves.mono fun _ ht => (mem_spared.mp ht).1, fun _ ht => (mem_spared.mp ht).1, hstep, hplays, ?_⟩
  intro r hr
  rw [hreply] at hr
  cases hr

theorem Leaves.refl (hl : l.Holds h.allocator es) (hlent : h.allocator.Lends (es.map Entry.token ++ rest)) :
    Leaves h (es.map Entry.token ++ rest) rest l h es := ⟨hl, hlent, .refl _ _, rfl⟩

theorem forall_ref {r : Reference} (hes : ∀ e ∈ es, e.ref.same r = false) :
    ∀ x ∈ es.map Entry.ref, x.same r = false := by
  intro x hx
  obtain ⟨e, he, rfl⟩ := List.mem_map.mp hx
  exact hes e he

section Exact

variable (hg : g.Exact)
include hg

theorem insertFront_answers (hl : l.Holds h.allocator es)
    (hlent : h.allocator.Lends (es.map Entry.token ++ rest)) (value : Int32) :
    ∃ es', Answers h es rest (.insertFront value) (l.answer h (.insertFront value)).1
      (l.answer h (.insertFront value)).2.1 (l.answer h (.insertFront value)).2.2 es' := by
  rcases insertFront_cases hg hl hlent value with ⟨fault, hacquire, he⟩ | ⟨e, l', h', he, hm, hleaves⟩
  · rw [answer, he]
    refine ⟨es, .of_same (.refl hl hlent) (.insertFrontFails value _ hacquire) ?_ rfl⟩
    simp only [ListCall.play, hacquire]
    rfl
  · rw [answer, he]
    refine ⟨e :: es, hleaves.mono fun t ht => (mem_spared.mp ht).1, ?_, .insertFront _ hm.value,
      ListCall.play_insertFront hm, ?_⟩
    · intro t ht
      exact List.mem_cons_of_mem _ (mem_spared.mp ht).1
    · intro r hr
      cases hr
      exact ⟨e, rfl, .refl _⟩

theorem insertAfter_answers (hl : l.Holds h.allocator es)
    (hlent : h.allocator.Lends (es.map Entry.token ++ rest)) (r : Reference) (value : Int32) :
    ∃ es', Answers h es rest (.insertAfter (some r) value) (l.answer h (.insertAfter (some r) value)).1
      (l.answer h (.insertAfter (some r) value)).2.1 (l.answer h (.insertAfter (some r) value)).2.2 es' := by
  rcases insertAfter_cases hg hl hlent r value with
    ⟨fault, hacquire, he⟩ | ⟨e, h', he, hm, hnone, hleaves⟩ |
      ⟨as, bs, x, e, h', rfl, hx, has, he, hm, hleaves⟩
  · rw [answer, he]
    refine ⟨es, .of_same (.refl hl hlent) (.insertAfterFails r value _ hacquire) ?_ rfl⟩
    simp only [ListCall.play, hacquire]
    rfl
  · rw [answer, he]
    exact ⟨es, .of_same hleaves (.insertAfterMisses value (forall_ref hnone)) (ListCall.play_misses hm hnone).1 rfl⟩
  · rw [answer, he]
    have hq (e : Entry) (next : Option UInt64) : (e.withLink next).ref.same r = e.ref.same r := rfl
    have htargets : (ListCall.insertAfter (some r) value).targets (placed none (as ++ x :: bs)) =
        [x.token.address] := by
      rw [ListCall.targets, find?_placed hq has hx]
      rfl
    have hsub : ∀ t ∈ spared (.insertAfter (some r) value) (as ++ x :: bs) rest,
        t ∈ (as ++ bs).map Entry.token ++ rest := by
      intro t ht
      obtain ⟨hmem, hnot⟩ := mem_spared.mp ht
      rw [htargets, List.mem_singleton] at hnot
      rcases List.mem_cons.mp ((tokens_middle as x bs rest).mem_iff.mp hmem) with rfl | hmem
      · exact absurd rfl hnot
      · exact hmem
    have hperm : (as ++ x :: e :: bs).Perm (e :: (as ++ x :: bs)) := by
      have hmiddle : ((as ++ [x]) ++ e :: bs).Perm (e :: ((as ++ [x]) ++ bs)) := List.perm_middle
      simpa using hmiddle
    refine ⟨as ++ x :: e :: bs, hleaves.mono hsub, ?_, ?_, ListCall.play_insertAfter hm has hx,
      fun r' hr' => ⟨e, ?_, hperm⟩⟩
    · intro t ht
      refine (tokens_middle as x (e :: bs) rest).mem_iff.mpr (List.mem_cons_of_mem _ ?_)
      exact (tokens_middle as e bs rest).mem_iff.mpr (List.mem_cons_of_mem _ (hsub t ht))
    · simp only [List.map_append, List.map_cons]
      exact .insertAfter _ hx (forall_ref has) hm.value
    · cases hr'
      rfl

omit hg in
theorem mem_tokens_dropLast {as : List Entry} {toks : List Token} {t : Token}
    (ht : t ∈ as.map Entry.token ++ toks) (hnot : t.address ∉ (last as).toList) :
    t ∈ as.dropLast.map Entry.token ++ toks := by
  rcases List.eq_nil_or_concat' as with rfl | ⟨as, x, rfl⟩
  · exact ht
  · unfold last at hnot
    rw [List.getLast?_concat] at hnot
    rw [List.dropLast_concat]
    rw [List.map_append, List.append_assoc, List.mem_append] at ht
    rcases ht with ht | ht
    · exact List.mem_append_left _ ht
    · rcases List.mem_cons.mp ht with rfl | ht
      · exact absurd (by simp) hnot
      · exact List.mem_append_right _ ht

theorem insertBefore_answers (hl : l.Holds h.allocator es)
    (hlent : h.allocator.Lends (es.map Entry.token ++ rest)) (r : Reference) (value : Int32) :
    ∃ es', Answers h es rest (.insertBefore (some r) value) (l.answer h (.insertBefore (some r) value)).1
      (l.answer h (.insertBefore (some r) value)).2.1 (l.answer h (.insertBefore (some r) value)).2.2 es' := by
  rcases insertBefore_cases hg hl hlent r value with
    ⟨fault, hacquire, he⟩ | ⟨e, h', he, hm, hnone, hleaves⟩ |
      ⟨as, bs, x, e, l', h', rfl, hx, has, he, hm, hleaves⟩
  · rw [answer, he]
    refine ⟨es, .of_same (.refl hl hlent) (.insertBeforeFails r value _ hacquire) ?_ rfl⟩
    simp only [ListCall.play, hacquire]
    rfl
  · rw [answer, he]
    exact ⟨es, .of_same hleaves (.insertBeforeMisses value (forall_ref hnone)) (ListCall.play_misses hm hnone).2 rfl⟩
  · rw [answer, he]
    have hq (e : Entry) (next : Option UInt64) : (e.withLink next).ref.same r = e.ref.same r := rfl
    have htargets : (ListCall.insertBefore (some r) value).targets (placed none (as ++ x :: bs)) =
        (last as).toList := by
      rw [ListCall.targets, span_placed hq has hx]
      simp only
      rw [getLast?_placed]
    have hsub : ∀ t ∈ spared (.insertBefore (some r) value) (as ++ x :: bs) rest,
        t ∈ (as.dropLast ++ x :: bs).map Entry.token ++ rest := by
      intro t ht
      obtain ⟨hmem, hnot⟩ := mem_spared.mp ht
      rw [htargets] at hnot
      rw [List.map_append, List.append_assoc] at hmem ⊢
      exact mem_tokens_dropLast hmem hnot
    have hperm : (as ++ e :: x :: bs).Perm (e :: (as ++ x :: bs)) := List.perm_middle
    refine ⟨as ++ e :: x :: bs, hleaves.mono hsub, ?_, ?_, ListCall.play_insertBefore hm has hx,
      fun r' hr' => ⟨e, ?_, hperm⟩⟩
    · intro t ht
      exact (tokens_middle as e (x :: bs) rest).mem_iff.mpr (List.mem_cons_of_mem _ (mem_spared.mp ht).1)
    · simp only [List.map_append, List.map_cons]
      exact .insertBefore _ hx (forall_ref has) hm.value
    · cases hr'
      rfl

omit hg in
theorem delete_answers (hl : l.Holds h.allocator es)
    (hlent : h.allocator.Lends (es.map Entry.token ++ rest)) (value : Int32) :
    ∃ es', Answers h es rest (.delete value) (l.answer h (.delete value)).1
      (l.answer h (.delete value)).2.1 (l.answer h (.delete value)).2.2 es' := by
  rcases delete_cases hl hlent value with
    ⟨he, hnone⟩ | ⟨as, bs, x, l', h', rfl, hx, has, he, hleaves⟩
  · rw [answer, he]
    refine ⟨es, .of_same (.refl hl hlent) (.deleteMisses ?_) (ListCall.play_delete_misses hnone) rfl⟩
    intro a ha
    obtain ⟨e, he, rfl⟩ := List.mem_map.mp ha
    exact hnone e he
  · rw [answer, he]
    have htargets : (ListCall.delete value).targets (placed none (as ++ x :: bs)) =
        x.token.address :: (last as).toList := by
      have hspan : (placed none (as ++ x :: bs)).span (fun p => p.node.value != value) =
          (placed (some x.token.address) as, x.withLink (first none bs) :: placed none bs) :=
        span_placed (q := fun e => e.value == value) (fun _ _ => rfl) (fun e he => by simpa using has e he)
          (by simpa using hx)
      rw [ListCall.targets, hspan]
      simp only
      rw [getLast?_placed]
      rfl
    have hsub : ∀ t ∈ spared (.delete value) (as ++ x :: bs) rest,
        t ∈ (as.dropLast ++ bs).map Entry.token ++ rest ∧ t ∈ (as ++ bs).map Entry.token ++ rest := by
      intro t ht
      obtain ⟨hmem, hnot⟩ := mem_spared.mp ht
      rw [htargets, List.mem_cons, not_or] at hnot
      rcases List.mem_cons.mp ((tokens_middle as x bs rest).mem_iff.mp hmem) with rfl | hmem
      · exact absurd rfl hnot.1
      · refine ⟨?_, hmem⟩
        rw [List.map_append, List.append_assoc] at hmem ⊢
        exact mem_tokens_dropLast hmem hnot.2
    refine ⟨as ++ bs, hleaves.mono fun t ht => (hsub t ht).1, fun t ht => (hsub t ht).2, ?_,
      ListCall.play_delete hx has, ?_⟩
    · simp only [List.map_append, List.map_cons]
      refine .delete _ hx ?_
      intro a ha
      obtain ⟨e, he, rfl⟩ := List.mem_map.mp ha
      exact has e he
    · intro r hr
      cases hr

omit hg in
theorem clear_answers (hl : l.Holds h.allocator es)
    (hlent : h.allocator.Lends (es.map Entry.token ++ rest)) :
    ∃ es', Answers h es rest .clear (l.answer h .clear).1 (l.answer h .clear).2.1
      (l.answer h .clear).2.2 es' := by
  obtain ⟨h', he, hleaves⟩ := clear_spec hl hlent
  have htargets : ListCall.clear.targets (placed none es) = es.map fun e => e.token.address :=
    map_address_placed none es
  have hsub : ∀ t ∈ spared .clear es rest, t ∈ rest := by
    intro t ht
    obtain ⟨hmem, hnot⟩ := mem_spared.mp ht
    rw [htargets] at hnot
    rcases List.mem_append.mp hmem with hmem | hmem
    · obtain ⟨e, he, rfl⟩ := List.mem_map.mp hmem
      exact absurd (List.mem_map.mpr ⟨e, he, rfl⟩) hnot
    · exact hmem
  unfold answer
  rw [he]
  exact ⟨[], hleaves.mono hsub, hsub, .clear _, rfl, fun r hr => by cases hr⟩

/-- Every operation is a step of the sequence, makes of the chain what it makes of a plain list, and
spares all but its targets. -/
theorem answer_spec (hl : l.Holds h.allocator es) (hlent : h.allocator.Lends (es.map Entry.token ++ rest))
    (call : ListCall) :
    ∃ es', Answers h es rest call (l.answer h call).1 (l.answer h call).2.1 (l.answer h call).2.2 es' := by
  have hsame := Leaves.refl hl hlent
  cases call with
  | insertFront value => exact insertFront_answers hg hl hlent value
  | insertAfter previous value =>
    cases previous with
    | none => exact ⟨es, .of_same hsame (.insertAfterNone value _ _) rfl rfl⟩
    | some r => exact insertAfter_answers hg hl hlent r value
  | insertBefore next value =>
    cases next with
    | none => exact ⟨es, .of_same hsame (.insertBeforeNone value _ _) rfl rfl⟩
    | some r => exact insertBefore_answers hg hl hlent r value
  | delete value => exact delete_answers hl hlent value
  | clear => exact clear_answers hl hlent
  | search value =>
    rw [answer, search_eq hl hlent]
    exact ⟨es, .of_same hsame (.search value _) rfl rfl⟩
  | count =>
    have hcount := @ListStep.count (h.allocator.acquire Node.byteSize).1 (es.map Entry.ref)
    rw [List.length_map] at hcount
    unfold answer
    rw [count_eq hl hlent]
    exact ⟨es, .of_same hsame hcount rfl rfl⟩
  | isEmpty =>
    have hempty := @ListStep.isEmpty (h.allocator.acquire Node.byteSize).1 (es.map Entry.ref)
    rw [List.isEmpty_map] at hempty
    unfold answer
    rw [isEmpty_eq hl]
    exact ⟨es, .of_same hsame hempty rfl rfl⟩
  | values =>
    unfold answer
    rw [values_eq hl hlent]
    refine ⟨es, .of_same hsame (.values _) ?_ rfl⟩
    rw [ListCall.play, List.map_map]
    rfl
  | range start stop =>
    rw [answer, range, hl.nodes_eq hlent]
    exact ⟨es, .of_same hsame (.range start stop (map_ref_placed none es)) rfl rfl⟩

end Exact

/-! ## Stamps -/

theorem stamp_place (h : Host g) (value : Int32) : (h.place value).2.stamp =
    match (h.allocator.acquire Node.byteSize).1 with
    | .error _ => h.stamp
    | .ok _ => h.stamp + 1 := by
  unfold Host.place
  rcases h.allocator.acquire Node.byteSize with ⟨_ | t, a⟩ <;> rfl

@[simp] theorem stamp_dispose (h : Host g) (address : UInt64) : (h.dispose address).stamp = h.stamp := by
  unfold Host.dispose
  split <;> rfl

@[simp] theorem stamp_link (l : NodeList) (h : Host g) (previous next : Option UInt64) :
    (l.link h previous next).2.stamp = h.stamp := by
  cases previous <;> rfl

theorem stamp_clearFrom (fuel : Nat) (cursor : Option UInt64) (h : Host g) :
    (clearFrom fuel cursor h).stamp = h.stamp := by
  induction fuel generalizing cursor h with
  | zero => rfl
  | succ fuel ih =>
    cases cursor with
    | none => rfl
    | some address =>
      rw [clearFrom, ih, stamp_dispose]
      rfl

theorem stamp_insertFront (l : NodeList) (h : Host g) (value : Int32) :
    (l.insertFront h value).2.2.stamp = (h.place value).2.stamp := by
  unfold insertFront
  rcases h.place value with ⟨_ | ref, h₁⟩ <;> rfl

theorem stamp_insertAfter (l : NodeList) (h : Host g) (r : Reference) (value : Int32) :
    (l.insertAfter h (some r) value).2.2.stamp = (h.place value).2.stamp := by
  unfold insertAfter
  rcases h.place value with ⟨_ | ref, h₁⟩
  · rfl
  · simp only
    split
    · exact stamp_dispose h₁ ref.address
    · rfl

theorem stamp_insertBefore (l : NodeList) (h : Host g) (r : Reference) (value : Int32) :
    (l.insertBefore h (some r) value).2.2.stamp = (h.place value).2.stamp := by
  unfold insertBefore
  rcases h.place value with ⟨_ | ref, h₁⟩
  · rfl
  · simp only
    split
    · exact stamp_dispose h₁ ref.address
    · exact stamp_link l _ _ _

theorem stamp_delete (l : NodeList) (h : Host g) (value : Int32) :
    (l.delete h value).2.2.stamp = h.stamp := by
  unfold delete
  split
  · rfl
  · exact (stamp_dispose _ _).trans (stamp_link l h _ _)

/-- A stamp is used up by every call that made a node, and by no other. -/
theorem answer_stamp (l : NodeList) (h : Host g) (call : ListCall) :
    (l.answer h call).2.2.stamp = call.stampAfter (h.allocator.acquire Node.byteSize).1 h.stamp := by
  cases call with
  | insertFront value => exact (stamp_insertFront l h value).trans (stamp_place h value)
  | insertAfter previous value =>
    cases previous with
    | none => rfl
    | some r => exact (stamp_insertAfter l h r value).trans (stamp_place h value)
  | insertBefore next value =>
    cases next with
    | none => rfl
    | some r => exact (stamp_insertBefore l h r value).trans (stamp_place h value)
  | delete value => exact stamp_delete l h value
  | clear => exact stamp_clearFrom _ _ _
  | search value => rfl
  | count => rfl
  | isEmpty => rfl
  | values => rfl
  | range start stop => rfl

end NodeList

end ArenaHeap
