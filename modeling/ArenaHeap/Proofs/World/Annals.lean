import ArenaHeap.Proofs.World.Sequences

/-!
# Annals of nodes

What calls and replies tell of the nodes of all lists, without a look at memory. A node is known by its date:
how many calls were made before the one that put it in.

* `spliceFirst` : the first element with a property becomes some other elements;
* `Dated` : a reference, and the date of the node that it was handed out for;
* `Annals`, `annals` : the nodes of each list, and all references that were handed out;
* `PutIn` : a call put a node into a list;
* `annals_nodes` : a node is in the list that it was put in, and has the reference that was handed out then;
* `annals_once` : it is there only once;
* `Absent` : no node of a list has a date, as when it was deleted (`absent_deleted`) or the list was cleared
  (`absent_cleared`);
* `Absent.later`, `absent_everywhere` : a node that is gone never comes back, to whatever list;
* `created` : how many nodes were made, those included that were given up for want of a place.
-/

namespace ArenaHeap

/-! ## Splices -/

section Splice

variable {α β : Type} {q : α → Bool} {f : α → List α} {x y : α} {as bs xs : List α}

/-- The first element with a property becomes some elements. -/
def spliceFirst (q : α → Bool) (f : α → List α) : List α → List α
  | [] => []
  | x :: xs => if q x then f x ++ xs else x :: spliceFirst q f xs

theorem spliceFirst_append (has : ∀ a ∈ as, q a = false) (hx : q x = true) :
    spliceFirst q f (as ++ x :: bs) = as ++ (f x ++ bs) := by
  induction as with
  | nil => rw [List.nil_append, spliceFirst, if_pos hx, List.nil_append]
  | cons a as ih =>
    obtain ⟨ha, has⟩ := List.forall_mem_cons.mp has
    rw [List.cons_append, spliceFirst, if_neg (Bool.eq_false_iff.mp ha), ih has, List.cons_append]

/-- Either there is no such element, or there is a first one. -/
theorem spliceFirst_cases (q : α → Bool) (f : α → List α) (xs : List α) : spliceFirst q f xs = xs ∨
    ∃ as x bs, xs = as ++ x :: bs ∧ q x = true ∧ spliceFirst q f xs = as ++ (f x ++ bs) := by
  induction xs with
  | nil => exact Or.inl rfl
  | cons x xs ih =>
    rw [spliceFirst]
    split
    · exact Or.inr ⟨[], x, xs, rfl, ‹_›, rfl⟩
    · rcases ih with he | ⟨as, y, bs, rfl, hy, he⟩
      · rw [he]
        exact Or.inl rfl
      · rw [he]
        exact Or.inr ⟨x :: as, y, bs, rfl, hy, rfl⟩

theorem mem_spliceFirst (hy : y ∈ spliceFirst q f xs) : y ∈ xs ∨ ∃ x ∈ xs, y ∈ f x := by
  rcases spliceFirst_cases q f xs with he | ⟨as, x, bs, rfl, -, he⟩
  · rw [he] at hy
    exact Or.inl hy
  · rw [he, List.mem_append, List.mem_append] at hy
    rcases hy with hy | hy | hy
    · exact Or.inl (List.mem_append_left _ hy)
    · exact Or.inr ⟨x, by simp, hy⟩
    · exact Or.inl (by simp [hy])

/-- An element that is put next to another one. -/
theorem spliceFirst_perm (hf : ∀ x, (f x).Perm [y, x]) (xs : List α) :
    spliceFirst q f xs = xs ∨ (spliceFirst q f xs).Perm (y :: xs) := by
  rcases spliceFirst_cases q f xs with he | ⟨as, x, bs, rfl, -, he⟩
  · exact Or.inl he
  · rw [he]
    exact Or.inr ((((hf x).append_right bs).append_left as).trans List.perm_middle)

theorem spliceFirst_sublist (hf : ∀ x, f x = []) (xs : List α) : (spliceFirst q f xs).Sublist xs := by
  rcases spliceFirst_cases q f xs with he | ⟨as, x, bs, rfl, -, he⟩
  · rw [he]
  · rw [he, hf, List.nil_append]
    exact (List.sublist_cons_self x bs).append_left as

theorem spliceFirst_of_none (h : ∀ x ∈ xs, q x = false) : spliceFirst q f xs = xs := by
  rcases spliceFirst_cases q f xs with he | ⟨as, x, bs, rfl, hx, -⟩
  · exact he
  · rw [h x (by simp)] at hx
    cases hx

theorem spliceFirst_congr {q' : α → Bool} (h : ∀ x ∈ xs, q x = q' x) : spliceFirst q f xs = spliceFirst q' f xs := by
  induction xs with
  | nil => rfl
  | cons x xs ih =>
    obtain ⟨hx, hxs⟩ := List.forall_mem_cons.mp h
    rw [spliceFirst, spliceFirst, hx, ih hxs]

/-- A filter that keeps what is spliced keeps the splice. -/
theorem filter_spliceFirst {p : α → Bool} (h : ∀ x ∈ xs, q x = true → p x = true ∧ (f x).filter p = f x) :
    (spliceFirst q f xs).filter p = spliceFirst q f (xs.filter p) := by
  induction xs with
  | nil => rfl
  | cons x xs ih =>
    obtain ⟨hx, hxs⟩ := List.forall_mem_cons.mp h
    rw [spliceFirst]
    split
    · rename_i hq
      obtain ⟨hp, hf⟩ := hx hq
      rw [List.filter_append, hf, List.filter_cons_of_pos hp, spliceFirst, if_pos hq]
    · rename_i hq
      rw [List.filter_cons, List.filter_cons, ih hxs]
      split
      · rw [spliceFirst, if_neg hq]
      · rfl

/-- A filter that keeps as much of the splice as of what was there does not show it. -/
theorem filter_spliceFirst_eq {p : α → Bool} (h : ∀ x ∈ xs, q x = true → (f x).filter p = [x].filter p) :
    (spliceFirst q f xs).filter p = xs.filter p := by
  rcases spliceFirst_cases q f xs with he | ⟨as, x, bs, rfl, hx, he⟩
  · rw [he]
  · rw [he, List.append_cons as x bs, List.append_assoc as [x] bs]
    simp only [List.filter_append]
    rw [h x (by simp) hx]

theorem map_spliceFirst {r : α → β} (q : β → Bool) (f' : β → List β) (hf : ∀ x, (f x).map r = f' (r x))
    (xs : List α) :
    (spliceFirst (fun x => q (r x)) f xs).map r = spliceFirst q f' (xs.map r) := by
  induction xs with
  | nil => rfl
  | cons x xs ih =>
    rw [spliceFirst, List.map_cons, spliceFirst, apply_ite (List.map r), List.map_append, hf, List.map_cons, ih]

end Splice

/-! ## Dates -/

theorem ListStep.found_eq {acquired : Except Fault Token} {call : ListCall} {reply : ListReply}
    {refs after : List Reference} {value : Int32} {result : Option Reference}
    (hstep : ListStep acquired call reply refs after) (hcall : call = .search value)
    (hreply : reply = .found result) : result = refs.find? (·.value == value) := by
  cases hstep with
  | search value refs =>
    cases hcall
    cases hreply
    rfl
  | _ => cases hcall

/-- A reference, and the date of the node that it was handed out for. -/
structure Dated where
  date : Nat
  ref : Reference
deriving DecidableEq, Repr

namespace Dated

variable {date : Nat} {ds : List Dated} {d : Dated} {acquired : Except Fault Token} {call : ListCall}
  {reply : ListReply} {refs after : List Reference}

/-- The nodes of a list after a call and its reply, if a node that was put in has the given date. -/
def revise (date : Nat) (ds : List Dated) : ListCall → ListReply → List Dated
  | .insertFront _, .inserted (.ok r) => ⟨date, r⟩ :: ds
  | .insertAfter (some previous) _, .inserted (.ok r) =>
    spliceFirst (·.ref.same previous) (fun d => [d, ⟨date, r⟩]) ds
  | .insertBefore (some next) _, .inserted (.ok r) =>
    spliceFirst (·.ref.same next) (fun d => [⟨date, r⟩, d]) ds
  | .delete value, .deleted (.ok ()) => spliceFirst (·.ref.value == value) (fun _ => []) ds
  | .clear, .cleared => []
  | _, _ => ds

/-- The reference that a call on a list handed out, with the date of its node. -/
def issued? (date : Nat) (ds : List Dated) : ListCall → ListReply → Option Dated
  | _, .inserted (.ok r) => some ⟨date, r⟩
  | .search value, .found (some r) => (ds.find? (·.ref.value == value)).map fun d => ⟨d.date, r⟩
  | _, _ => none

theorem issued?_inserted (date : Nat) (ds : List Dated) (call : ListCall) (r : Reference) :
    issued? date ds call (.inserted (.ok r)) = some ⟨date, r⟩ := by
  cases call <;> rfl

theorem date_issued? (hd : issued? date ds call reply = some d) : d.date = date ∨ ∃ d' ∈ ds, d'.date = d.date := by
  unfold issued? at hd
  split at hd
  · cases hd
    exact Or.inl rfl
  · obtain ⟨d', hfind, rfl⟩ := Option.map_eq_some_iff.mp hd
    exact Or.inr ⟨d', List.mem_of_find?_eq_some hfind, rfl⟩
  · cases hd

theorem mem_revise (hd : d ∈ revise date ds call reply) :
    d ∈ ds ∨ reply = .inserted (.ok d.ref) ∧ d.date = date := by
  unfold revise at hd
  split at hd
  · rcases List.mem_cons.mp hd with rfl | hd
    · exact Or.inr ⟨rfl, rfl⟩
    · exact Or.inl hd
  · rcases mem_spliceFirst hd with hd | ⟨x, hx, hd⟩
    · exact Or.inl hd
    · rcases List.mem_pair.mp hd with rfl | rfl
      · exact Or.inl hx
      · exact Or.inr ⟨rfl, rfl⟩
  · rcases mem_spliceFirst hd with hd | ⟨x, hx, hd⟩
    · exact Or.inl hd
    · rcases List.mem_pair.mp hd with rfl | rfl
      · exact Or.inr ⟨rfl, rfl⟩
      · exact Or.inl hx
  · rcases mem_spliceFirst hd with hd | ⟨x, -, hd⟩
    · exact Or.inl hd
    · cases hd
  · cases hd
  · exact Or.inl hd

/-- No two nodes have the same date. -/
theorem nodup_revise (hds : (ds.map Dated.date).Nodup) (hnew : ∀ d ∈ ds, d.date ≠ date) (call : ListCall)
    (reply : ListReply) : ((revise date ds call reply).map Dated.date).Nodup := by
  have hcons (r : Reference) : (((⟨date, r⟩ : Dated) :: ds).map Dated.date).Nodup := by
    rw [List.map_cons, List.nodup_cons]
    exact ⟨fun hmem => by
      obtain ⟨d, hd, he⟩ := List.mem_map.mp hmem
      exact hnew d hd he, hds⟩
  have hput {q : Dated → Bool} {f : Dated → List Dated} {r : Reference} (hf : ∀ x, (f x).Perm [⟨date, r⟩, x]) :
      ((spliceFirst q f ds).map Dated.date).Nodup := by
    rcases spliceFirst_perm hf ds with he | hperm
    · rw [he]
      exact hds
    · exact (hperm.map _).nodup_iff.mpr (hcons r)
  unfold revise
  split
  · exact hcons _
  · exact hput fun x => .swap _ _ _
  · exact hput fun x => .refl _
  · exact hds.sublist ((spliceFirst_sublist (fun _ => rfl) ds).map _)
  · exact List.nodup_nil
  · exact hds

/-- The annals of a list make the steps of its sequence. -/
theorem map_revise (hstep : ListStep acquired call reply refs after) (hds : ds.map Dated.ref = refs) (date : Nat) :
    (revise date ds call reply).map Dated.ref = after := by
  cases hstep with
  | insertFront refs hvalue => rw [revise, List.map_cons, hds]
  | @insertAfter previous x r value as bs hx has hvalue =>
    rw [revise, map_spliceFirst (·.same previous) (fun x => [x, r]) (fun _ => rfl), hds, spliceFirst_append has hx]
    rfl
  | @insertBefore next x r value as bs hx has hvalue =>
    rw [revise, map_spliceFirst (·.same next) (fun x => [r, x]) (fun _ => rfl), hds, spliceFirst_append has hx]
    rfl
  | @delete value x as bs hx has =>
    have hfirst : (x.value == value) = true := by simpa using hx
    have hothers : ∀ a ∈ as, (a.value == value) = false := fun a ha => by simpa using has a ha
    rw [revise, map_spliceFirst (fun x : Reference => x.value == value) (fun _ => []) (fun _ => rfl),
      hds, spliceFirst_append hothers hfirst]
    rfl
  | clear => rfl
  | _ => exact hds

/-- What is handed out is the reference to the node that was put in, or that to the one that is found. -/
theorem mem_issued? (hstep : ListStep acquired call reply refs after) (hds : ds.map Dated.ref = refs)
    (hd : issued? date ds call reply = some d) :
    reply = .inserted (.ok d.ref) ∧ d.date = date ∨ d ∈ ds := by
  unfold issued? at hd
  split at hd
  · cases hd
    exact Or.inl ⟨rfl, rfl⟩
  · -- The sequence and the annals find the same node.
    have hfound := hstep.found_eq rfl rfl
    obtain ⟨found, hfind, rfl⟩ := Option.map_eq_some_iff.mp hd
    rw [← hds, List.find?_map] at hfound
    change _ = (ds.find? fun d => d.ref.value == _).map Dated.ref at hfound
    rw [hfind, Option.map_some, Option.some.injEq] at hfound
    subst hfound
    exact Or.inr (List.mem_of_find?_eq_some hfind)
  · cases hd

end Dated

/-! ## Annals -/

/-- What is known of the nodes of all lists after some calls. -/
structure Annals where
  calls : Nat := 0
  /-- The nodes of each list, in order. -/
  nodes : Nat → List Dated := fun _ => []
  /-- All references that were handed out. -/
  issued : List Dated := []

/-- The annals after one more call. -/
def Annals.note (a : Annals) : Call × Reply → Annals
  | (.list i call, .list reply) =>
    { calls := a.calls + 1
      nodes := Function.update a.nodes i (Dated.revise a.calls (a.nodes i) call reply)
      issued := (Dated.issued? a.calls (a.nodes i) call reply).toList ++ a.issued }
  | _ => { a with calls := a.calls + 1 }

/-- The annals of a run. -/
def annals (history : List (Call × Reply)) : Annals := history.foldl Annals.note {}

/-- The call of the given date put a node into list `i` and handed out a reference to it. -/
def PutIn (history : List (Call × Reply)) (date i : Nat) (r : Reference) : Prop :=
  ∃ call, history[date]? = some (.list i call, .list (.inserted (.ok r)))

section Annals

variable {history : List (Call × Reply)} {x : Call × Reply} {a : Annals} {d : Dated} {i : Nat}

theorem annals_concat (history : List (Call × Reply)) (x : Call × Reply) :
    annals (history ++ [x]) = (annals history).note x := List.foldl_concat ..

theorem Annals.calls_note (a : Annals) (x : Call × Reply) : (a.note x).calls = a.calls + 1 := by
  unfold Annals.note
  split <;> rfl

theorem calls_annals (history : List (Call × Reply)) : (annals history).calls = history.length := by
  induction history using List.reverseRecOn with
  | nil => rfl
  | append_singleton history x ih =>
    rw [annals_concat, Annals.calls_note, ih, List.length_append, List.length_singleton]

theorem nodes_annals_list (history : List (Call × Reply)) (i : Nat) (call : ListCall) (reply : ListReply) :
    (annals (history ++ [(.list i call, .list reply)])).nodes = Function.update (annals history).nodes i
      (Dated.revise history.length ((annals history).nodes i) call reply) := by
  rw [annals_concat, ← calls_annals]
  rfl

theorem issued_annals_list (history : List (Call × Reply)) (i : Nat) (call : ListCall) (reply : ListReply) :
    (annals (history ++ [(.list i call, .list reply)])).issued =
      (Dated.issued? history.length ((annals history).nodes i) call reply).toList ++ (annals history).issued := by
  rw [annals_concat, ← calls_annals]
  rfl

theorem Annals.mem_note (hd : d ∈ (a.note x).nodes i) :
    d ∈ a.nodes i ∨ (∃ call, x = (.list i call, .list (.inserted (.ok d.ref)))) ∧ d.date = a.calls := by
  unfold Annals.note at hd
  split at hd
  · rename_i j call reply
    by_cases hj : i = j
    · subst hj
      simp only [Function.update_self] at hd
      rcases Dated.mem_revise hd with hd | ⟨rfl, hdate⟩
      · exact Or.inl hd
      · exact Or.inr ⟨⟨call, rfl⟩, hdate⟩
    · simp only [Function.update_of_ne hj] at hd
      exact Or.inl hd
  · exact Or.inl hd

theorem getElem?_concat_iff {α : Type} {xs : List α} {x y : α} {m : Nat} :
    (xs ++ [x])[m]? = some y ↔ xs[m]? = some y ∨ m = xs.length ∧ x = y := by
  rcases Nat.lt_trichotomy m xs.length with hlt | rfl | hgt
  · rw [List.getElem?_append_left hlt]
    simp [Nat.ne_of_lt hlt]
  · simp
  · rw [List.getElem?_eq_none (by simp; omega), List.getElem?_eq_none (by omega)]
    simp [Nat.ne_of_gt hgt]

theorem putIn_concat_iff {date : Nat} {r : Reference} : PutIn (history ++ [x]) date i r ↔
    PutIn history date i r ∨ date = history.length ∧ ∃ call, x = (.list i call, .list (.inserted (.ok r))) := by
  simp only [PutIn, getElem?_concat_iff, exists_or, exists_and_left]

theorem PutIn.now {date : Nat} {r : Reference} (history : List (Call × Reply)) (i : Nat) (call : ListCall)
    (hdate : date = history.length) : PutIn (history ++ [(.list i call, .list (.inserted (.ok r)))]) date i r :=
  putIn_concat_iff.mpr (Or.inr ⟨hdate, call, rfl⟩)

theorem PutIn.lt {date : Nat} {r : Reference} (h : PutIn history date i r) : date < history.length := by
  obtain ⟨call, hcall⟩ := h
  exact (List.getElem?_eq_some_iff.mp hcall).1

theorem PutIn.append {date : Nat} {r : Reference} (h : PutIn history date i r) (later : List (Call × Reply)) :
    PutIn (history ++ later) date i r := by
  have hlt := h.lt
  obtain ⟨call, hcall⟩ := h
  exact ⟨call, by rw [List.getElem?_append_left hlt, hcall]⟩

/-- A date is that of one node in one list. -/
theorem PutIn.inj {date j : Nat} {r r' : Reference} (h : PutIn history date i r) (h' : PutIn history date j r') :
    i = j ∧ r = r' := by
  obtain ⟨call, hcall⟩ := h
  obtain ⟨call', hcall'⟩ := h'
  rw [hcall] at hcall'
  cases hcall'
  exact ⟨rfl, rfl⟩

/-- A node is in the list that it was put in, and it has the reference that was handed out then. -/
theorem annals_nodes (hd : d ∈ (annals history).nodes i) : PutIn history d.date i d.ref := by
  induction history using List.reverseRecOn with
  | nil => cases hd
  | append_singleton history x ih =>
    rw [annals_concat] at hd
    rcases Annals.mem_note hd with hd | ⟨⟨call, rfl⟩, hdate⟩
    · exact (ih hd).append [x]
    · rw [calls_annals] at hdate
      exact .now history i call hdate

/-- No two nodes have the same date. -/
theorem annals_once (history : List (Call × Reply)) (i : Nat) :
    (((annals history).nodes i).map Dated.date).Nodup := by
  induction history using List.reverseRecOn with
  | nil => exact List.nodup_nil
  | append_singleton history x ih =>
    rw [annals_concat]
    unfold Annals.note
    split
    · rename_i j call reply
      by_cases hj : i = j
      · subst hj
        simp only [Function.update_self]
        -- The new date counts the calls so far, and every node was put in by one of them.
        refine Dated.nodup_revise ih (fun d hd => ?_) call reply
        rw [calls_annals]
        exact Nat.ne_of_lt (annals_nodes hd).lt
      · simp only [Function.update_of_ne hj]
        exact ih
    · exact ih

/-- References are to nodes that were put in before. -/
theorem annals_issued_lt (hd : d ∈ (annals history).issued) : d.date < history.length := by
  induction history using List.reverseRecOn with
  | nil => cases hd
  | append_singleton history x ih =>
    rw [annals_concat] at hd
    rw [List.length_append, List.length_singleton]
    unfold Annals.note at hd
    split at hd
    · rename_i i call reply
      rcases List.mem_append.mp hd with hd | hd
      · rcases Dated.date_issued? (Option.mem_toList.mp hd) with hdate | ⟨d', hd', hdate⟩
        · rw [hdate, calls_annals]
          omega
        · have hlt := (annals_nodes hd').lt
          omega
      · have hlt := ih hd
        omega
    · have hlt := ih hd
      omega

/-! ## Nodes that are gone -/

/-- No node of list `i` has the date. -/
def Absent (history : List (Call × Reply)) (i date : Nat) : Prop :=
  ∀ d ∈ (annals history).nodes i, d.date ≠ date

/-- A node is in no list but the one that it was put in. -/
theorem PutIn.absent {date j : Nat} {r : Reference} (h : PutIn history date i r) (hne : j ≠ i) :
    Absent history j date := by
  intro d hd hdate
  have hput := annals_nodes hd
  rw [hdate] at hput
  exact hne (hput.inj h).1

/-- What is in a list was in it before, or was put in since. -/
theorem annals_later (history later : List (Call × Reply)) (hd : d ∈ (annals (history ++ later)).nodes i) :
    d ∈ (annals history).nodes i ∨ history.length ≤ d.date := by
  induction later using List.reverseRecOn with
  | nil =>
    rw [List.append_nil] at hd
    exact Or.inl hd
  | append_singleton later x ih =>
    rw [← List.append_assoc, annals_concat] at hd
    rcases Annals.mem_note hd with hd | ⟨-, hdate⟩
    · exact ih hd
    · rw [calls_annals, List.length_append] at hdate
      exact Or.inr (by omega)

/-- A node that is gone never comes back. -/
theorem Absent.later {date : Nat} (h : Absent history i date) (hdate : date < history.length)
    (later : List (Call × Reply)) : Absent (history ++ later) i date := by
  intro d hd
  rcases annals_later history later hd with hd | hlate
  · exact h d hd
  · omega

/-- A node that its list gave up is in no list, and never will be. -/
theorem absent_everywhere (hd : d ∈ (annals history).nodes i) (h : Absent (history ++ [x]) i d.date)
    (later : List (Call × Reply)) (j : Nat) : Absent (history ++ x :: later) j d.date := by
  have hput := annals_nodes hd
  by_cases hj : j = i
  · subst hj
    have hlt := (hput.append [x]).lt
    rw [List.append_cons]
    exact h.later hlt later
  · exact (hput.append (x :: later)).absent hj

/-- The first node with a value is gone when the value is deleted. -/
theorem absent_deleted {value : Int32} {as bs : List Dated} (hnodes : (annals history).nodes i = as ++ d :: bs)
    (hd : d.ref.value = value) (has : ∀ a ∈ as, a.ref.value ≠ value) :
    Absent (history ++ [(.list i (.delete value), .list (.deleted (.ok ())))]) i d.date := by
  have honce := annals_once history i
  have hafter : (annals (history ++ [(.list i (.delete value), .list (.deleted (.ok ())))])).nodes i = as ++ bs := by
    rw [nodes_annals_list, Function.update_self, Dated.revise, hnodes,
      spliceFirst_append (fun a ha => by simpa using has a ha) (by simpa using hd)]
    rfl
  -- No other node has the date of the one that is taken out.
  rw [hnodes, (List.perm_middle.map Dated.date).nodup_iff, List.map_cons, List.nodup_cons] at honce
  intro d' hd' hdate
  rw [hafter] at hd'
  exact honce.1 (List.mem_map.mpr ⟨d', hd', hdate⟩)

/-- All nodes are gone when the list is cleared. -/
theorem absent_cleared (history : List (Call × Reply)) (i date : Nat) :
    Absent (history ++ [(.list i .clear, .list .cleared)]) i date := by
  intro d hd
  rw [nodes_annals_list, Function.update_self] at hd
  cases hd

end Annals

/-! ## Creations -/

/-- Whether a node was made: one that was put in, or one that was given up for want of a place. -/
def ListReply.creates : ListReply → Bool
  | .inserted (.ok _) | .inserted (.error .notFound) => true
  | _ => false

/-- Whether a node was made. -/
def Reply.creates : Reply → Bool
  | .list reply => reply.creates
  | _ => false

theorem Reply.creates_eq_false {reply : Reply} (h : ∀ r, reply ≠ .list r) : reply.creates = false := by
  cases reply with
  | list r => exact absurd rfl (h r)
  | _ => rfl

/-- The number of nodes that were made in a run. -/
def created (history : List (Call × Reply)) : Nat := history.countP fun x => x.2.creates

theorem created_concat (history : List (Call × Reply)) (x : Call × Reply) :
    created (history ++ [x]) = created history + if x.2.creates then 1 else 0 := by
  unfold created
  rw [List.countP_append, List.countP_singleton]

theorem created_le_length (history : List (Call × Reply)) : created history ≤ history.length :=
  List.countP_le_length

theorem created_take_le (history : List (Call × Reply)) (m : Nat) : created (history.take m) ≤ created history :=
  (List.take_sublist m history).countP_le

theorem created_lt {history : List (Call × Reply)} {x : Call × Reply} {m m' : Nat} (hx : history[m]? = some x)
    (hcreates : x.2.creates = true) (hlt : m < m') : created (history.take m) < created (history.take m') := by
  have hprefix : (history.take (m + 1)).Sublist (history.take m') := (List.take_prefix_take_left hlt).sublist
  have hle : created (history.take (m + 1)) ≤ created (history.take m') := hprefix.countP_le
  rw [List.take_add_one, hx, Option.toList_some, created_concat, if_pos hcreates] at hle
  omega

end ArenaHeap
