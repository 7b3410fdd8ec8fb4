import ArenaHeap.Proofs.World.Annals
import ArenaHeap.Proofs.World.Failures

/-!
# References are names of nodes

A reference names the node that it was handed out for, and no other one that ever was or will be, as long as
the stamps do not run out. Addresses do not: the block of a node that is gone is used again.

* `Recorded` : the annals of a run tell what the lists of a world are, and stamps count the nodes that were made;
* `Recorded.other`, `Recorded.list`, `Runs.recorded` : so it is after every run;
* `Recorded.same_iff` : references are the same if and only if their nodes have the same date;
* `Recorded.matches_iff` : a reference matches a node of a list if and only if its own node is in that list;
* `World.Stale` : a reference leads nowhere in a list;
* `World.Identifies`, `Runs.references_identify` : what references mean after every run.
-/

namespace ArenaHeap

/-! ## Stamps of single calls -/

section Stamps

variable {acquired : Except Fault Token} {stamp : UInt64} {es : List Entry} {call : ListCall} {r : Reference}

/-- A node that is put in has the next stamp. -/
theorem ListCall.play_inserted (h : (call.play acquired stamp es).1 = .inserted (.ok r)) : r.stamp = stamp := by
  cases call with
  | insertFront value =>
    cases acquired with
    | error fault => cases h
    | ok t =>
      cases h
      rfl
  | insertAfter x? value | insertBefore x? value =>
    cases x? with
    | none => cases h
    | some x =>
      cases acquired with
      | error fault => cases h
      | ok t =>
        rcases hspan : es.span (!·.ref.same x) with ⟨before, _ | ⟨y, behind⟩⟩
        all_goals
          simp only [play, hspan] at h
          cases h
        rfl
  | delete value =>
    rcases hspan : es.span (·.value != value) with ⟨before, _ | ⟨y, behind⟩⟩
    all_goals
      simp only [play, hspan] at h
      cases h
  | _ => cases h

/-- A stamp is used up by whoever made a node. -/
theorem ListCall.stampAfter_eq (acquired : Except Fault Token) (stamp : UInt64) (es : List Entry) (call : ListCall) :
    call.stampAfter acquired stamp =
      stamp + if (call.play acquired stamp es).1.creates then 1 else 0 := by
  have hnone : stamp + (0 : UInt64) = stamp := UInt64.add_zero _
  cases call with
  | insertFront value =>
    cases acquired with
    | error fault => exact hnone.symm
    | ok t => rfl
  | insertAfter x? value | insertBefore x? value =>
    cases x? with
    | none => exact hnone.symm
    | some x =>
      cases acquired with
      | error fault => exact hnone.symm
      | ok t =>
        rcases hspan : es.span (!·.ref.same x) with ⟨before, _ | ⟨y, behind⟩⟩
        all_goals
          simp only [play, hspan]
          rfl
  | delete value =>
    rcases hspan : es.span (·.value != value) with ⟨before, _ | ⟨y, behind⟩⟩
    all_goals
      simp only [play, hspan]
      exact hnone.symm
  | _ => exact hnone.symm

end Stamps

namespace World

variable {geometry : Nat → Geometry} {hostOf : Nat → Nat} {w w' : World geometry hostOf}
  {stores : Nat → BackingStore} {history : List (Call × Reply)} {entries entries' : Nat → List Entry}
  {i n : Nat} {call : Call} {d d' : Dated}

/-! ## Records -/

/-- The annals of a run tell what the lists of a world are: their nodes, and the node of each reference that was
handed out. The stamp of a node counts those that were made before it. -/
structure Recorded (history : List (Call × Reply)) (entries : Nat → List Entry) (w : World geometry hostOf) : Prop
    where
  refs : ∀ i, ((annals history).nodes i).map Dated.ref = sequences entries i
  issued : ∀ d ∈ (annals history).issued, ∃ i, PutIn history d.date i d.ref
  linked : ∀ i, ∀ d ∈ (annals history).nodes i, d ∈ (annals history).issued
  found : ∀ (m i : Nat) (value : Int32) (r : Reference),
    history[m]? = some (.list i (.search value), .list (.found (some r))) →
      r.value = value ∧ ∃ date < m, PutIn history date i r
  stamp : w.stamp = .ofNat (created history)
  stamps : ∀ date i r, PutIn history date i r → r.stamp = .ofNat (created (history.take date))

theorem SequenceStep.list_inv {call : ListCall} {reply : ListReply} {refs refs' : Nat → List Reference}
    (h : SequenceStep w (.list i call) (.list reply) refs refs') :
    ∃ after, ListStep ((w.allocators (hostOf i)).acquire Node.byteSize).1 call reply (refs i) after ∧
      refs' = Function.update refs i after := by
  cases h with
  | list hstep hnew => exact ⟨_, hstep, rfl⟩
  | other reply refs hcall => cases hcall

theorem Recorded.start (stores : Nat → BackingStore) :
    Recorded [] (fun _ => []) (World.start stores : World geometry hostOf) where
  refs _ := rfl
  issued _ hd := by cases hd
  linked _ _ hd := by cases hd
  found _ _ _ _ h := by cases h
  stamp := rfl
  stamps _ _ _ h := by
    obtain ⟨call, hcall⟩ := h
    cases hcall

/-- A reference that is found is that of a node of the list. -/
theorem Recorded.found_now (h : Recorded history entries w) {acquired : Except Fault Token} {call : ListCall}
    {reply : ListReply} {after : List Reference} (hstep : ListStep acquired call reply (sequences entries i) after)
    {value : Int32} {r : Reference} (hcall : call = .search value) (hreply : reply = .found (some r)) :
    r.value = value ∧ ∃ date < history.length, PutIn history date i r := by
  have hfound := (hstep.found_eq hcall hreply).symm
  have hvalue := List.find?_some hfound
  rw [← h.refs] at hfound
  obtain ⟨d, hd, rfl⟩ := List.mem_map.mp (List.mem_of_find?_eq_some hfound)
  have hput := annals_nodes hd
  exact ⟨by simpa using hvalue, d.date, hput.lt, hput⟩

/-- A call on a list and its reply keep the records. -/
theorem Recorded.list (h : Recorded history entries w) {call : ListCall} {reply : ListReply}
    (hstep : SequenceStep w (.list i call) (.list reply) (sequences entries) (sequences entries'))
    (hstamp : w'.stamp = w.stamp + if reply.creates then 1 else 0)
    (hnew : ∀ r, reply = .inserted (.ok r) → r.stamp = w.stamp) :
    Recorded (history ++ [(.list i call, .list reply)]) entries' w' := by
  obtain ⟨after, hlist, hafter⟩ := SequenceStep.list_inv hstep
  refine ⟨?_, ?_, ?_, ?_, ?_, ?_⟩
  · intro j
    rw [nodes_annals_list, hafter]
    by_cases hj : j = i
    · subst hj
      rw [Function.update_self, Function.update_self]
      exact Dated.map_revise hlist (h.refs j) _
    · rw [Function.update_of_ne hj, Function.update_of_ne hj]
      exact h.refs j
  · intro d hd
    rw [issued_annals_list] at hd
    rcases List.mem_append.mp hd with hd | hd
    · rcases Dated.mem_issued? hlist (h.refs i) (Option.mem_toList.mp hd) with ⟨rfl, hdate⟩ | hd
      · exact ⟨i, .now history i call hdate⟩
      · exact ⟨i, (annals_nodes hd).append _⟩
    · obtain ⟨j, hput⟩ := h.issued d hd
      exact ⟨j, hput.append _⟩
  · -- A node that is in a list now was there before, or was put in by this call.
    intro j d hd
    rw [annals_concat] at hd
    rw [issued_annals_list]
    rcases Annals.mem_note hd with hd | ⟨⟨call', he⟩, hdate⟩
    · exact List.mem_append_right _ (h.linked j d hd)
    · cases he
      rw [Dated.issued?_inserted, Option.toList_some, ← calls_annals, ← hdate]
      exact List.mem_append_left _ List.mem_cons_self
  · intro m j value r hm
    rcases getElem?_concat_iff.mp hm with hm | ⟨rfl, he⟩
    · obtain ⟨hvalue, date, hlt, hput⟩ := h.found m j value r hm
      exact ⟨hvalue, date, hlt, hput.append _⟩
    · cases he
      obtain ⟨hvalue, date, hlt, hput⟩ := h.found_now hlist rfl rfl
      exact ⟨hvalue, date, hlt, hput.append _⟩
  · rw [hstamp, h.stamp, created_concat, UInt64.ofNat_add, apply_ite UInt64.ofNat]
    rfl
  · intro date j r hput
    rcases putIn_concat_iff.mp hput with hput | ⟨rfl, call', he⟩
    · rw [List.take_append_of_le_length (Nat.le_of_lt hput.lt)]
      exact h.stamps date j r hput
    · cases he
      rw [List.take_left, hnew r rfl, h.stamp]

/-- A call that is about no list, and its reply, keep the records. -/
theorem Recorded.other (h : Recorded history entries w) {reply : Reply} (hcall : call.isList = false)
    (hreply : ∀ r, reply ≠ .list r) (hstamp : w'.stamp = w.stamp) :
    Recorded (history ++ [(call, reply)]) entries w' := by
  have hnote : (annals (history ++ [(call, reply)])).nodes = (annals history).nodes ∧
      (annals (history ++ [(call, reply)])).issued = (annals history).issued := by
    rw [annals_concat]
    cases call with
    | list i call => cases hcall
    | _ => exact ⟨rfl, rfl⟩
  have hput {date i : Nat} {r : Reference} :
      PutIn (history ++ [(call, reply)]) date i r ↔ PutIn history date i r := by
    rw [putIn_concat_iff, or_iff_left]
    rintro ⟨-, call', he⟩
    cases he
    cases hcall
  refine ⟨fun i => ?_, fun d hd => ?_, fun i d hd => ?_, fun m i value r hm => ?_, ?_, fun date i r hr => ?_⟩
  · rw [hnote.1]
    exact h.refs i
  · rw [hnote.2] at hd
    simp only [hput]
    exact h.issued d hd
  · rw [hnote.1] at hd
    rw [hnote.2]
    exact h.linked i d hd
  · simp only [hput]
    rcases getElem?_concat_iff.mp hm with hm | ⟨rfl, he⟩
    · exact h.found m i value r hm
    · cases he
      cases hcall
  · rw [created_concat, Reply.creates_eq_false hreply, if_neg Bool.false_ne_true, hstamp]
    exact h.stamp
  · have hold := hput.mp hr
    rw [List.take_append_of_le_length (Nat.le_of_lt hold.lt)]
    exact h.stamps date i r hold

/-- The annals of every run tell what the lists are. -/
theorem Runs.recorded (hg : ∀ k, (geometry k).Exact) (h : Runs stores history w) :
    ∃ entries n, w.Sound entries n ∧ Recorded history entries w := by
  induction h with
  | start => exact ⟨_, 0, .start stores, .start stores⟩
  | @step history w call h hok ih =>
    obtain ⟨entries, n, hw, hrecorded⟩ := ih
    cases hcall : call.isList with
    | false =>
      obtain ⟨-, hstamp, -, hreply⟩ := w.perform_unlisted hcall
      exact ⟨entries, n, (hw.perform_other hg hcall hok).sound, hrecorded.other hcall hreply hstamp⟩
    | true =>
      obtain ⟨i, call, rfl⟩ : ∃ i c, call = .list i c := by
        cases call with
        | list i call => exact ⟨i, call, rfl⟩
        | _ => cases hcall
      have hw := hw.mono (Nat.le_max_left n (i + 1))
      obtain ⟨hreply, hadvances⟩ := hw.list (hg _) (Nat.le_max_right _ _) call
      have hstep := hadvances.step
      rw [hreply] at hstep ⊢
      refine ⟨_, _, hadvances.sound, hrecorded.list hstep ?_ fun r hr => ListCall.play_inserted hr⟩
      rw [stamp_list, ListCall.stampAfter_eq _ _ (entries i), played]

/-! ## Names -/

/-- Nodes that were put in at different times have different stamps. -/
theorem Recorded.stamp_ne (h : Recorded history entries w) (hcount : created history < 2 ^ 64) {date date' i j : Nat}
    {r r' : Reference} (hr : PutIn history date i r) (hr' : PutIn history date' j r') (hlt : date < date') :
    r.stamp ≠ r'.stamp := by
  obtain ⟨call, hcall⟩ := hr
  have hfewer := created_lt hcall rfl hlt
  have hle := created_take_le history date'
  rw [h.stamps date i r ⟨call, hcall⟩, h.stamps date' j r' hr']
  intro he
  -- Neither count wraps, so equal stamps would be equal counts.
  have hnat := congrArg UInt64.toNat he
  rw [Word.toNat_ofNat (by omega), Word.toNat_ofNat (by omega)] at hnat
  omega

/-- References are the same if and only if they are to nodes of the same date. -/
theorem Recorded.same_iff (h : Recorded history entries w) (hcount : created history < 2 ^ 64)
    (hd : d ∈ (annals history).issued) (hd' : d' ∈ (annals history).issued) :
    d.ref.same d'.ref = true ↔ d.date = d'.date := by
  obtain ⟨i, hput⟩ := h.issued d hd
  obtain ⟨j, hput'⟩ := h.issued d' hd'
  constructor
  · -- The stamps decide: addresses are used again.
    intro hsame
    obtain ⟨-, hstamp⟩ := (Bool.and_eq_true _ _).mp hsame
    have hstamp := eq_of_beq hstamp
    rcases Nat.lt_trichotomy d.date d'.date with hlt | he | hlt
    · exact absurd hstamp (h.stamp_ne hcount hput hput' hlt)
    · exact he
    · exact absurd hstamp.symm (h.stamp_ne hcount hput' hput hlt)
  · intro hdate
    rw [hdate] at hput
    rw [(hput.inj hput').2]
    simp [Reference.same]

end World

namespace World

variable {geometry : Nat → Geometry} {hostOf : Nat → Nat} {w : World geometry hostOf}
  {stores : Nat → BackingStore} {history : List (Call × Reply)} {entries : Nat → List Entry} {i n : Nat}
  {r : Reference}

/-- The reference leads nowhere in list `i`: no node is put next to it, whether there is room for one or not,
and it neither starts a range nor ends one. -/
structure Stale (w : World geometry hostOf) (i : Nat) (r : Reference) : Prop where
  missing : ∀ value, ∀ call ∈ ListCall.besides (some r) value, ∀ t a,
    (w.allocators (hostOf i)).acquire Node.byteSize = (.ok t, a) →
      (w.perform (.list i call)).1 = .list (.inserted (.error .notFound))
  exhausted : ∀ value, ∀ call ∈ ListCall.besides (some r) value, ∀ fault a,
    (w.allocators (hostOf i)).acquire Node.byteSize = (.error fault, a) →
      (w.perform (.list i call)).1 = .list (.inserted (.error (.allocationExhausted fault)))
  starts : ∀ stop, (w.perform (.list i (.range (some r) stop))).1 = .list (.values [])
  ends : ∀ start, (w.perform (.list i (.range start (some r)))).1 = (w.perform (.list i (.range start none))).1

theorem Sound.stale (hg : (geometry (hostOf i)).Exact) (hw : w.Sound entries n)
    (hnone : ∀ p ∈ (w.lists i).nodes (w.allocators (hostOf i)), p.ref.same r = false) : w.Stale i r := by
  refine ⟨fun value call hcall t a hacquire => (hw.missing hg hacquire hnone hcall).1,
    fun value call hcall fault a hacquire => ?_, fun stop => ?_, fun start => ?_⟩
  · have hmakes : call.makesNode = true := by
      rcases List.mem_pair.mp hcall with rfl | rfl
      · rfl
      · rfl
    exact congrArg Prod.fst (World.exhausted (congrArg Prod.fst hacquire) hmakes)
  · rw [hw.nodes_eq] at hnone
    rw [hw.reply_list hg]
    exact congrArg (fun vs => Reply.list (.values vs)) (NodeList.slice_start_missing hnone stop)
  · rw [hw.nodes_eq] at hnone
    rw [hw.reply_list hg, hw.reply_list hg]
    exact congrArg (fun vs => Reply.list (.values vs)) (NodeList.slice_stop_missing hnone start)

/-! ## Runs -/

/-- A run was some other world before each of its calls. -/
theorem Runs.split (h : Runs stores history w) {before after : List (Call × Reply)} {x : Call × Reply}
    (he : history = before ++ x :: after) :
    ∃ w₀ : World geometry hostOf, Runs stores before w₀ ∧ w₀.Allowed x.1 ∧ x.2 = (w₀.perform x.1).1 := by
  induction h generalizing after with
  | start => simp at he
  | @step history w call h hok ih =>
    rcases List.eq_nil_or_concat' after with rfl | ⟨after, y, rfl⟩
    · obtain ⟨rfl, hx⟩ := List.append_inj' he rfl
      cases hx
      exact ⟨w, h, hok, rfl⟩
    · rw [← List.cons_append, ← List.append_assoc] at he
      exact ih (List.append_inj' he rfl).1

/-- What references mean after a run. The annals tell the nodes of each list, and each node is in the list that it
was put in. A reference is the one that was handed out when its node was put in, also when it was found by a search,
and it is the same as another if and only if both are to the same node. So it matches a node of a list if and
only if its own node is in that list, and leads nowhere in all other lists. A node that is deleted or cleared is in
no list, and a node that is gone never comes back. -/
structure Identifies (history : List (Call × Reply)) (w : World geometry hostOf) : Prop where
  lists : ∀ i, ((w.lists i).nodes (w.allocators (hostOf i))).map Placed.ref =
    ((annals history).nodes i).map Dated.ref
  linked : ∀ i, ∀ d ∈ (annals history).nodes i, d ∈ (annals history).issued ∧ PutIn history d.date i d.ref
  once : ∀ i, (((annals history).nodes i).map Dated.date).Nodup
  issued : ∀ d ∈ (annals history).issued, ∃ i, PutIn history d.date i d.ref
  found : ∀ (m i : Nat) (value : Int32) (r : Reference),
    history[m]? = some (.list i (.search value), .list (.found (some r))) →
      r.value = value ∧ ∃ date < m, PutIn history date i r
  same_iff : ∀ d ∈ (annals history).issued, ∀ d' ∈ (annals history).issued,
    (d.ref.same d'.ref = true ↔ d.date = d'.date) ∧ (d.date = d'.date → d.ref = d'.ref)
  matches_iff : ∀ d ∈ (annals history).issued, ∀ i,
    (∃ p ∈ (w.lists i).nodes (w.allocators (hostOf i)), p.ref.same d.ref = true) ↔
      ∃ d' ∈ (annals history).nodes i, d'.date = d.date
  stale : ∀ d ∈ (annals history).issued, ∀ i, Absent history i d.date → w.Stale i d.ref
  foreign : ∀ i date r, PutIn history date i r → ∀ j ≠ i, Absent history j date
  deleted : ∀ before i value after,
    history = before ++ (.list i (.delete value), .list (.deleted (.ok ()))) :: after →
      ∃ as d bs, (annals before).nodes i = as ++ d :: bs ∧ d.ref.value = value ∧
        (∀ a ∈ as, a.ref.value ≠ value) ∧ ∀ j, Absent history j d.date
  cleared : ∀ before i after, history = before ++ (.list i .clear, .list .cleared) :: after →
    ∀ d ∈ (annals before).nodes i, ∀ j, Absent history j d.date
  gone : ∀ before after, history = before ++ after → ∀ d ∈ (annals before).issued, ∀ i,
    Absent before i d.date → Absent history i d.date

theorem Recorded.lists (h : Recorded history entries w) (hw : w.Sound entries n) (i : Nat) :
    ((w.lists i).nodes (w.allocators (hostOf i))).map Placed.ref = ((annals history).nodes i).map Dated.ref := by
  rw [hw.nodes_eq, Entry.map_ref_placed, h.refs]
  rfl

theorem Recorded.matches_iff (h : Recorded history entries w) (hw : w.Sound entries n)
    (hcount : created history < 2 ^ 64) {d : Dated} (hd : d ∈ (annals history).issued) (i : Nat) :
    (∃ p ∈ (w.lists i).nodes (w.allocators (hostOf i)), p.ref.same d.ref = true) ↔
      ∃ d' ∈ (annals history).nodes i, d'.date = d.date := by
  constructor
  · rintro ⟨p, hp, hsame⟩
    have hmem : p.ref ∈ ((w.lists i).nodes (w.allocators (hostOf i))).map Placed.ref := List.mem_map_of_mem hp
    rw [h.lists hw] at hmem
    obtain ⟨d', hd', href⟩ := List.mem_map.mp hmem
    rw [← href] at hsame
    exact ⟨d', hd', (h.same_iff hcount (h.linked i d' hd') hd).mp hsame⟩
  · rintro ⟨d', hd', hdate⟩
    have hmem : d'.ref ∈ ((annals history).nodes i).map Dated.ref := List.mem_map_of_mem hd'
    rw [← h.lists hw] at hmem
    obtain ⟨p, hp, href⟩ := List.mem_map.mp hmem
    refine ⟨p, hp, ?_⟩
    rw [href]
    exact (h.same_iff hcount (h.linked i d' hd') hd).mpr hdate

section Exact

variable (hg : ∀ k, (geometry k).Exact)
include hg

/-- A node that is deleted is gone from all lists for good. -/
theorem Runs.deleted (h : Runs stores history w) {before after : List (Call × Reply)} {value : Int32}
    (he : history = before ++ (.list i (.delete value), .list (.deleted (.ok ()))) :: after) :
    ∃ as d bs, (annals before).nodes i = as ++ d :: bs ∧ d.ref.value = value ∧
      (∀ a ∈ as, a.ref.value ≠ value) ∧ ∀ j, Absent history j d.date := by
  obtain ⟨w₀, hruns, -, hreply⟩ := h.split he
  obtain ⟨entries, n, hw, hrecorded⟩ := hruns.recorded hg
  rw [hw.reply_list (hg _)] at hreply
  obtain ⟨as, x, bs, hes, hvalue, hothers, -⟩ := ListCall.play_deleted (Reply.list.inj hreply).symm
  -- What the chain loses is what the annals lose, since both have the same references in order.
  have hrefs := hrecorded.refs i
  rw [sequences, hes, List.map_append, List.map_cons] at hrefs
  obtain ⟨as', rest, hnodes, has', hrest⟩ := List.map_eq_append_iff.mp hrefs
  obtain ⟨d, bs', rfl, hdref, -⟩ := List.map_eq_cons_iff.mp hrest
  have hdvalue : d.ref.value = value := by rw [hdref, ← hvalue, Entry.ref]
  have hbefore : ∀ a ∈ as', a.ref.value ≠ value := by
    intro a ha
    have hmem : a.ref ∈ as.map Entry.ref := by
      rw [← has']
      exact List.mem_map_of_mem ha
    obtain ⟨y, hy, href⟩ := List.mem_map.mp hmem
    rw [← href]
    exact hothers y hy
  refine ⟨as', d, bs', hnodes, hdvalue, hbefore, fun j => ?_⟩
  have hd : d ∈ (annals before).nodes i := by
    rw [hnodes]
    exact List.mem_append_right _ List.mem_cons_self
  rw [he]
  exact absent_everywhere hd (absent_deleted hnodes hdvalue hbefore) after j

/-- After every run in which the stamps do not run out, references identify nodes. -/
theorem Runs.references_identify (h : Runs stores history w) (hcount : created history < 2 ^ 64) :
    w.Identifies history := by
  obtain ⟨entries, n, hw, hrecorded⟩ := h.recorded hg
  refine ⟨hrecorded.lists hw, fun i d hd => ⟨hrecorded.linked i d hd, annals_nodes hd⟩, annals_once history,
    hrecorded.issued, hrecorded.found, fun d hd d' hd' => ⟨hrecorded.same_iff hcount hd hd', fun hdate => ?_⟩,
    fun d hd i => hrecorded.matches_iff hw hcount hd i, fun d hd i hnone => ?_,
    fun i date r hput j hne => hput.absent hne, fun before i value after he => h.deleted hg he,
    fun before i after he d hd j => ?_, fun before after he d hd i hnone => ?_⟩
  · obtain ⟨i, hput⟩ := hrecorded.issued d hd
    obtain ⟨j, hput'⟩ := hrecorded.issued d' hd'
    rw [hdate] at hput
    exact (hput.inj hput').2
  · apply hw.stale (hg _)
    intro p hp
    by_contra hsame
    obtain ⟨d', hd', hdate⟩ :=
      (hrecorded.matches_iff hw hcount hd i).mp ⟨p, hp, (Bool.not_eq_false _).mp hsame⟩
    exact hnone d' hd' hdate
  · rw [he]
    exact absent_everywhere hd (absent_cleared before i d.date) after j
  · rw [he]
    exact hnone.later (annals_issued_lt hd) after

end Exact

/-- The list of `tiny` gave its node up, and put another with the same value in its place. -/
def reused : World (fun _ => .standard) fun _ => 0 :=
  ((tiny.perform (.list 0 (.delete 7))).2.perform (.list 0 (.insertFront 7))).2

theorem reused_identifies : ∃ history, history.map Prod.fst =
      [.init 0 256, .acquire 0 20, .list 0 (.insertFront 7), .list 0 (.delete 7), .list 0 (.insertFront 7)] ∧
    Runs (fun _ => .zeroed (fun _ => true) 4096) history reused ∧ reused.Identifies history := by
  obtain ⟨history, hcalls, hruns⟩ := tiny_runs
  have hdeleted := @Runs.step _ _ _ _ _ (.list 0 (.delete 7)) hruns trivial
  have hreused := @Runs.step _ _ _ _ _ (.list 0 (.insertFront 7)) hdeleted trivial
  have hlength := congrArg List.length hcalls
  rw [List.length_map] at hlength
  refine ⟨_, ?_, hreused, hreused.references_identify (fun _ => Geometry.standard_exact) ?_⟩
  · rw [List.map_append, List.map_append, hcalls]
    rfl
  · refine Nat.lt_of_le_of_lt (created_le_length _) ?_
    rw [List.length_append, List.length_append, hlength]
    decide

/-- The new node has the address and the value of the old one, but it is another node. -/
example :
    let old := (tiny.lists 0).search (tiny.allocators 0) 7
    let new := (reused.lists 0).search (reused.allocators 0) 7
    old.map Reference.address = new.map Reference.address ∧ old.map Reference.value = new.map Reference.value ∧
      Reference.same? old new = false := by
  decide +kernel

end World

end ArenaHeap
