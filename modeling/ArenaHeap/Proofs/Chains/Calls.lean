import ArenaHeap.Proofs.Chains.Edits

/-!
# Calls of lists

* `ListCall`, `ListReply` : what can be asked of a list, and what it answers;
* `NodeList.answer` : the operation that a call stands for;
* `ListCall.targets` : the nodes that a call splices;
* `ListStep` : what a call and its reply mean for the sequence of a list;
* `ListCall.play`, `ListCall.stampAfter` : what a call makes of a plain list of entries, and of the stamp.
-/

namespace ArenaHeap

/-- What can be asked of a list. -/
inductive ListCall where
  | insertFront (value : Int32)
  | insertAfter (previous : Option Reference) (value : Int32)
  | insertBefore (next : Option Reference) (value : Int32)
  | delete (value : Int32)
  | clear
  | search (value : Int32)
  | count
  | isEmpty
  | values
  | range (start stop : Option Reference)

/-- What a list answers. -/
inductive ListReply where
  | inserted (result : Except ListFault Reference)
  | deleted (result : Except ListFault Unit)
  | cleared
  | found (result : Option Reference)
  | counted (n : Nat)
  | empty (result : Bool)
  | values (result : List Int32)

/-- The node that a call put in. -/
def ListReply.newcomer? : ListReply → Option Reference
  | .inserted (.ok r) => some r
  | _ => none

/-- Whether a call was refused. -/
def ListReply.isFault : ListReply → Bool
  | .inserted (.error _) | .deleted (.error _) => true
  | _ => false

/-- The operation that a call stands for. -/
def NodeList.answer {g : Geometry} (l : NodeList) (h : Host g) : ListCall → ListReply × NodeList × Host g
  | .insertFront value => (l.insertFront h value).map .inserted id
  | .insertAfter previous value => (l.insertAfter h previous value).map .inserted id
  | .insertBefore next value => (l.insertBefore h next value).map .inserted id
  | .delete value => (l.delete h value).map .deleted id
  | .clear => (.cleared, l.clear h)
  | .search value => (.found (l.search h.allocator value), l, h)
  | .count => (.counted (l.count h.allocator), l, h)
  | .isEmpty => (.empty l.isEmpty, l, h)
  | .values => (.values (l.values h.allocator), l, h)
  | .range start stop => (.values (l.range h.allocator start stop), l, h)

/-- The addresses of the nodes that a call links anew or removes. -/
def ListCall.targets (ps : List Placed) : ListCall → List UInt64
  | .insertAfter (some r) _ => (ps.find? (·.ref.same r)).toList.map Placed.address
  | .insertBefore (some r) _ =>
    match ps.span (!·.ref.same r) with
    | (_, []) => []
    | (before, _ :: _) => (before.getLast?.map Placed.address).toList
  | .delete value =>
    match ps.span (·.node.value != value) with
    | (_, []) => []
    | (before, target :: _) => target.address :: (before.getLast?.map Placed.address).toList
  | .clear => ps.map Placed.address
  | _ => []

theorem mem_of_before {q : Placed → Bool} {ps before rest : List Placed} {address : UInt64}
    (hspan : ps.span q = (before, rest)) (h : address ∈ (before.getLast?.map Placed.address).toList) :
    address ∈ ps.map Placed.address := by
  rw [List.span_eq_takeWhile_dropWhile] at hspan
  obtain ⟨rfl, -⟩ := Prod.mk.inj hspan
  obtain ⟨p, hp, rfl⟩ := Option.map_eq_some_iff.mp (Option.mem_toList.mp h)
  exact List.mem_map_of_mem ((List.takeWhile_prefix q).subset (List.mem_of_getLast? hp))

theorem ListCall.targets_subset (call : ListCall) (ps : List Placed) :
    ∀ address ∈ call.targets ps, address ∈ ps.map Placed.address := by
  intro address h
  unfold targets at h
  split at h
  · obtain ⟨p, hp, rfl⟩ := List.mem_map.mp h
    exact List.mem_map_of_mem (List.mem_of_find?_eq_some (Option.mem_toList.mp hp))
  · split at h
    · cases h
    · exact mem_of_before ‹_› h
  · rename_i value
    split at h
    · cases h
    · rename_i before target rest hspan
      rcases List.mem_cons.mp h with rfl | h
      · rw [List.span_eq_takeWhile_dropWhile] at hspan
        have hsuffix := List.dropWhile_suffix (l := ps) fun p => p.node.value != value
        rw [(Prod.mk.inj hspan).2] at hsuffix
        exact List.mem_map_of_mem (hsuffix.subset List.mem_cons_self)
      · exact mem_of_before hspan h
  · exact h
  · cases h

/-- What a call and its reply mean for the sequence of a list, if `acquired` is what the allocator answers to
a request for a node. A node is refused for want of a block only if the allocator refuses one. -/
inductive ListStep (acquired : Except Fault Token) :
    ListCall → ListReply → List Reference → List Reference → Prop
  | insertFront {value : Int32} {r : Reference} (refs : List Reference) (hvalue : r.value = value) :
    ListStep acquired (.insertFront value) (.inserted (.ok r)) refs (r :: refs)
  | insertFrontFails (value : Int32) {fault : Fault} (refs : List Reference) (hacquired : acquired = .error fault) :
    ListStep acquired (.insertFront value) (.inserted (.error (.allocationExhausted fault))) refs refs
  | insertAfter {previous x r : Reference} {value : Int32} {as : List Reference} (bs : List Reference)
    (hx : x.same previous = true) (has : ∀ a ∈ as, a.same previous = false) (hvalue : r.value = value) :
    ListStep acquired (.insertAfter (some previous) value) (.inserted (.ok r)) (as ++ x :: bs) (as ++ x :: r :: bs)
  | insertAfterNone (value : Int32) (text : String) (refs : List Reference) :
    ListStep acquired (.insertAfter none value) (.inserted (.error (.invalidArgument text))) refs refs
  | insertAfterMisses {previous : Reference} (value : Int32) {refs : List Reference}
    (hrefs : ∀ a ∈ refs, a.same previous = false) :
    ListStep acquired (.insertAfter (some previous) value) (.inserted (.error .notFound)) refs refs
  | insertAfterFails (previous : Reference) (value : Int32) {fault : Fault} (refs : List Reference)
    (hacquired : acquired = .error fault) :
    ListStep acquired (.insertAfter (some previous) value) (.inserted (.error (.allocationExhausted fault))) refs refs
  | insertBefore {next x r : Reference} {value : Int32} {as : List Reference} (bs : List Reference)
    (hx : x.same next = true) (has : ∀ a ∈ as, a.same next = false) (hvalue : r.value = value) :
    ListStep acquired (.insertBefore (some next) value) (.inserted (.ok r)) (as ++ x :: bs) (as ++ r :: x :: bs)
  | insertBeforeNone (value : Int32) (text : String) (refs : List Reference) :
    ListStep acquired (.insertBefore none value) (.inserted (.error (.invalidArgument text))) refs refs
  | insertBeforeMisses {next : Reference} (value : Int32) {refs : List Reference}
    (hrefs : ∀ a ∈ refs, a.same next = false) :
    ListStep acquired (.insertBefore (some next) value) (.inserted (.error .notFound)) refs refs
  | insertBeforeFails (next : Reference) (value : Int32) {fault : Fault} (refs : List Reference)
    (hacquired : acquired = .error fault) :
    ListStep acquired (.insertBefore (some next) value) (.inserted (.error (.allocationExhausted fault))) refs refs
  | delete {value : Int32} {x : Reference} {as : List Reference} (bs : List Reference)
    (hx : x.value = value) (has : ∀ a ∈ as, a.value ≠ value) :
    ListStep acquired (.delete value) (.deleted (.ok ())) (as ++ x :: bs) (as ++ bs)
  | deleteMisses {value : Int32} {refs : List Reference} (hrefs : ∀ a ∈ refs, a.value ≠ value) :
    ListStep acquired (.delete value) (.deleted (.error .notFound)) refs refs
  | clear (refs : List Reference) : ListStep acquired .clear .cleared refs []
  | search (value : Int32) (refs : List Reference) :
    ListStep acquired (.search value) (.found (refs.find? (·.value == value))) refs refs
  | count (refs : List Reference) : ListStep acquired .count (.counted refs.length) refs refs
  | isEmpty (refs : List Reference) : ListStep acquired .isEmpty (.empty refs.isEmpty) refs refs
  | values (refs : List Reference) : ListStep acquired .values (.values (refs.map Reference.value)) refs refs
  | range (start stop : Option Reference) {refs : List Reference} {ps : List Placed}
    (hps : ps.map Placed.ref = refs) :
    ListStep acquired (.range start stop) (.values (NodeList.slice start stop start.isNone ps)) refs refs

/-! ## Lists as plain lists -/

/-- What a call makes of a chain, if `acquired` is what the allocator answers to a request for a node and
`stamp` is the stamp of the next node. -/
def ListCall.play (acquired : Except Fault Token) (stamp : UInt64) (es : List Entry) :
    ListCall → ListReply × List Entry
  | .insertFront value =>
    match acquired with
    | .error fault => (.inserted (.error (.allocationExhausted fault)), es)
    | .ok t => (.inserted (.ok ⟨t.address, stamp, value⟩), ⟨t, stamp, value⟩ :: es)
  | .insertAfter none _ => (.inserted (.error (.invalidArgument "previous node is none")), es)
  | .insertAfter (some r) value =>
    match acquired with
    | .error fault => (.inserted (.error (.allocationExhausted fault)), es)
    | .ok t =>
      match es.span (!·.ref.same r) with
      | (_, []) => (.inserted (.error .notFound), es)
      | (before, x :: behind) =>
        (.inserted (.ok ⟨t.address, stamp, value⟩), before ++ x :: ⟨t, stamp, value⟩ :: behind)
  | .insertBefore none _ => (.inserted (.error (.invalidArgument "next node is none")), es)
  | .insertBefore (some r) value =>
    match acquired with
    | .error fault => (.inserted (.error (.allocationExhausted fault)), es)
    | .ok t =>
      match es.span (!·.ref.same r) with
      | (_, []) => (.inserted (.error .notFound), es)
      | (before, x :: behind) =>
        (.inserted (.ok ⟨t.address, stamp, value⟩), before ++ ⟨t, stamp, value⟩ :: x :: behind)
  | .delete value =>
    match es.span (·.value != value) with
    | (_, []) => (.deleted (.error .notFound), es)
    | (before, _ :: behind) => (.deleted (.ok ()), before ++ behind)
  | .clear => (.cleared, [])
  | .search value => (.found ((es.map Entry.ref).find? (·.value == value)), es)
  | .count => (.counted es.length, es)
  | .isEmpty => (.empty es.isEmpty, es)
  | .values => (.values (es.map Entry.value), es)
  | .range start stop => (.values (NodeList.slice start stop start.isNone (Entry.placed none es)), es)

/-- The stamp of the next node after a call: whoever made a node used one up, even if the node was given up
again. -/
def ListCall.stampAfter (acquired : Except Fault Token) (stamp : UInt64) : ListCall → UInt64
  | .insertFront _ | .insertAfter (some _) _ | .insertBefore (some _) _ =>
    match acquired with
    | .error _ => stamp
    | .ok _ => stamp + 1
  | _ => stamp

theorem Entry.span_first {q : Entry → Bool} {as bs : List Entry} {x : Entry} (has : ∀ e ∈ as, q e = false)
    (hx : q x = true) : (as ++ x :: bs).span (fun e => !q e) = (as, x :: bs) := by
  refine span_append_of (fun e he => by rw [has e he]; rfl) fun e he => ?_
  rw [← Option.mem_some_iff.mp he, hx]
  rfl

theorem Entry.span_none {q : Entry → Bool} {es : List Entry} (hes : ∀ e ∈ es, q e = false) :
    es.span (fun e => !q e) = (es, []) := by
  have hspan := @span_append_of Entry (fun e => !q e) es [] (fun e he => by rw [hes e he]; rfl) (by simp)
  rwa [List.append_nil] at hspan

section Play

variable {g : Geometry} {h : Host g} {es as bs : List Entry} {x e : Entry} {value : Int32} {r : Reference}

theorem ListCall.play_insertFront (hm : h.Makes value e) :
    (ListCall.insertFront value).play (h.allocator.acquire Node.byteSize).1 h.stamp es =
      (.inserted (.ok e.ref), e :: es) := by
  simp only [play, hm.acquired, hm.entry]
  rw [Entry.ref, hm.stamp, hm.value]

theorem ListCall.play_insertAfter (hm : h.Makes value e) (has : ∀ a ∈ as, a.ref.same r = false)
    (hx : x.ref.same r = true) : (ListCall.insertAfter (some r) value).play
      (h.allocator.acquire Node.byteSize).1 h.stamp (as ++ x :: bs) =
        (.inserted (.ok e.ref), as ++ x :: e :: bs) := by
  simp only [play, hm.acquired, hm.entry]
  rw [Entry.span_first has hx, Entry.ref, hm.stamp, hm.value]

theorem ListCall.play_insertBefore (hm : h.Makes value e) (has : ∀ a ∈ as, a.ref.same r = false)
    (hx : x.ref.same r = true) : (ListCall.insertBefore (some r) value).play
      (h.allocator.acquire Node.byteSize).1 h.stamp (as ++ x :: bs) =
        (.inserted (.ok e.ref), as ++ e :: x :: bs) := by
  simp only [play, hm.acquired, hm.entry]
  rw [Entry.span_first has hx, Entry.ref, hm.stamp, hm.value]

theorem ListCall.play_misses (hm : h.Makes value e) (hes : ∀ a ∈ es, a.ref.same r = false) :
    (ListCall.insertAfter (some r) value).play (h.allocator.acquire Node.byteSize).1 h.stamp es =
        (.inserted (.error .notFound), es) ∧
      (ListCall.insertBefore (some r) value).play (h.allocator.acquire Node.byteSize).1 h.stamp es =
        (.inserted (.error .notFound), es) := by
  simp only [play, hm.acquired]
  rw [Entry.span_none hes]
  exact ⟨rfl, rfl⟩

theorem ListCall.play_delete {acquired : Except Fault Token} {stamp : UInt64} (hx : x.value = value)
    (has : ∀ a ∈ as, a.value ≠ value) :
    (ListCall.delete value).play acquired stamp (as ++ x :: bs) = (.deleted (.ok ()), as ++ bs) := by
  have hspan := @Entry.span_first (fun e => e.value == value) as bs x (fun a ha => by simpa using has a ha)
    (by simpa using hx)
  change (as ++ x :: bs).span (fun e => e.value != value) = (as, x :: bs) at hspan
  simp only [play, hspan]

theorem ListCall.play_delete_misses {acquired : Except Fault Token} {stamp : UInt64}
    (hes : ∀ a ∈ es, a.value ≠ value) :
    (ListCall.delete value).play acquired stamp es = (.deleted (.error .notFound), es) := by
  have hspan := @Entry.span_none (fun e => e.value == value) es fun a ha => by simpa using hes a ha
  change es.span (fun e => e.value != value) = (es, []) at hspan
  simp only [play, hspan]

/-- What is deleted is the first entry with the value. -/
theorem ListCall.play_deleted {acquired : Except Fault Token} {stamp : UInt64}
    (h : ((ListCall.delete value).play acquired stamp es).1 = .deleted (.ok ())) :
    ∃ as x bs, es = as ++ x :: bs ∧ x.value = value ∧ (∀ a ∈ as, a.value ≠ value) ∧
      ((ListCall.delete value).play acquired stamp es).2 = as ++ bs := by
  rcases Entry.first_match (fun e => e.value == value) es with hnone | ⟨as, x, bs, rfl, hx, has⟩
  · rw [play_delete_misses fun e he => by simpa using hnone e he] at h
    cases h
  · have hvalue : x.value = value := by simpa using hx
    have hothers : ∀ a ∈ as, a.value ≠ value := fun a ha => by simpa using has a ha
    exact ⟨as, x, bs, rfl, hvalue, hothers, by rw [play_delete hvalue hothers]⟩

theorem ListCall.play_fault {acquired : Except Fault Token} {stamp : UInt64} {call : ListCall}
    (hfault : (call.play acquired stamp es).1.isFault = true) : (call.play acquired stamp es).2 = es := by
  cases call with
  | insertFront value =>
    cases acquired with
    | error fault => rfl
    | ok t => cases hfault
  | insertAfter r? value | insertBefore r? value =>
    cases r? with
    | none => rfl
    | some r =>
      cases acquired with
      | error fault => rfl
      | ok t =>
        rcases hspan : es.span (!·.ref.same r) with ⟨before, _ | ⟨x, behind⟩⟩
        all_goals simp only [play, hspan] at hfault ⊢
        cases hfault
  | delete value =>
    rcases hspan : es.span (·.value != value) with ⟨before, _ | ⟨x, behind⟩⟩
    all_goals simp only [play, hspan] at hfault ⊢
    cases hfault
  | clear => cases hfault
  | search value => rfl
  | count => rfl
  | isEmpty => rfl
  | values => rfl
  | range start stop => rfl

end Play

end ArenaHeap
