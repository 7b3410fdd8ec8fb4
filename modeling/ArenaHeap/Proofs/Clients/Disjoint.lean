import ArenaHeap.Proofs.Clients.OwnList

/-!
# Clients with values of their own

Clients whose values are disjoint do not disturb each other, in whatever order their requests are served: each sees
what it would see alone, and its values end up in the list as they would alone. What one client reads in the list is
its view, and a request moves the view of its client like a plain list and all other views not at all.

* `World.Runs.ask` : a call on a list is a step of its nodes;
* `Issued`, `World.Runs.issued_inj`, `World.Runs.newcomer_fresh` : one node has one reference;
* `Sharing.Sound`, `Sharing.Sound.serve` : every client keeps track of its nodes;
* `Sharing.view`, `Sharing.Sound.view_serve` : what one request does to the views of all clients;
* `World.Runs.view_served` : what a script does to them;
* `RunsAlone.eq_ownList` : what a client sees alone;
* `World.Runs.clients_undisturbed` : it sees the same among others.
-/

namespace ArenaHeap

theorem ListReply.eq_inserted {reply : ListReply} {r : Reference} (h : reply.newcomer? = some r) :
    reply = .inserted (.ok r) := by
  unfold newcomer? at h
  split at h
  · cases h
    rfl
  · cases h

/-- A reference was handed out for a new node. -/
def Issued (history : List (Call × Reply)) (r : Reference) : Prop := ∃ date i, PutIn history date i r

theorem Issued.append {history : List (Call × Reply)} {r : Reference} (h : Issued history r)
    (later : List (Call × Reply)) : Issued (history ++ later) r := by
  obtain ⟨date, i, hput⟩ := h
  exact ⟨date, i, hput.append later⟩

/-! ## Calls on one list -/

namespace World

variable {geometry : Nat → Geometry} {hostOf : Nat → Nat} {w : World geometry hostOf}
  {stores : Nat → BackingStore} {history : List (Call × Reply)} {r s : Reference}

section Exact

variable (hg : ∀ k, (geometry k).Exact)
include hg

/-- A call on a list is a step of its nodes. -/
theorem Runs.ask (h : Runs stores history w) (i : Nat) (call : ListCall) :
    ListStep ((w.allocators (hostOf i)).acquire Node.byteSize).1 call (w.ask i call).1 (w.refs i)
      ((w.ask i call).2.refs i) := by
  obtain ⟨entries, n, hw, -⟩ := h.recorded hg
  have hw := hw.mono (Nat.le_max_left n (i + 1))
  obtain ⟨-, hadvances⟩ := hw.list (hg _) (Nat.le_max_right _ _) call
  have hstep := hadvances.step
  have hsound := hadvances.sound
  rw [perform_list_eq] at hstep hsound
  obtain ⟨after, hlist, hafter⟩ := SequenceStep.list_inv hstep
  rw [hw.refs_eq, hsound.refs_eq, hafter, Function.update_self]
  exact hlist

omit hg in
theorem Runs.then_ask (h : Runs stores history w) (i : Nat) (call : ListCall) :
    Runs stores (history ++ [(.list i call, .list (w.ask i call).1)]) (w.ask i call).2 :=
  @Runs.step _ _ _ _ _ (.list i call) h trivial

/-- The nodes of a list were handed out. -/
theorem Runs.issued_refs (h : Runs stores history w) {i : Nat} (hr : r ∈ w.refs i) : Issued history r := by
  obtain ⟨entries, n, hw, hrecorded⟩ := h.recorded hg
  rw [hw.refs_eq, ← hrecorded.refs] at hr
  obtain ⟨d, hd, rfl⟩ := List.mem_map.mp hr
  exact ⟨d.date, i, annals_nodes hd⟩

/-- One node has one reference. -/
theorem Runs.issued_inj (h : Runs stores history w) (hcount : created history < 2 ^ 64) (hr : Issued history r)
    (hs : Issued history s) (hsame : r.same s = true) : r = s := by
  obtain ⟨entries, n, hw, hrecorded⟩ := h.recorded hg
  obtain ⟨date, i, hr⟩ := hr
  obtain ⟨date', j, hs⟩ := hs
  have hstamp := eq_of_beq ((Bool.and_eq_true _ _).mp hsame).2
  rcases Nat.lt_trichotomy date date' with hlt | rfl | hlt
  · exact absurd hstamp (hrecorded.stamp_ne hcount hr hs hlt)
  · exact (hr.inj hs).2
  · exact absurd hstamp.symm (hrecorded.stamp_ne hcount hs hr hlt)

/-- No node of a list passes for one of some nodes with other values. -/
theorem Runs.apart (h : Runs stores history w) (hcount : created history < 2 ^ 64) (i : Nat)
    {own : Int32 → Bool} {nodes : List Reference} (hnodes : ∀ s ∈ nodes, own s.value = true ∧ Issued history s) :
    ∀ r ∈ w.refs i, ∀ s ∈ nodes, r.same s = true → own r.value = true := by
  intro r hr s hs hsame
  rw [h.issued_inj hg hcount (h.issued_refs hg hr) (hnodes s hs).2 hsame]
  exact (hnodes s hs).1

/-- A node that is put in is none that was there before. -/
theorem Runs.newcomer_fresh {i : Nat} {call : ListCall} {reply : ListReply}
    (h : Runs stores (history ++ [(.list i call, .list reply)]) w)
    (hcount : created (history ++ [(.list i call, .list reply)]) < 2 ^ 64) (hr : reply.newcomer? = some r)
    (hs : Issued history s) : r.same s = false := by
  obtain ⟨entries, n, hw, hrecorded⟩ := h.recorded hg
  obtain ⟨date, j, hs⟩ := hs
  cases ListReply.eq_inserted hr
  have hlt := hs.lt
  have hstamp := hrecorded.stamp_ne hcount (hs.append _) (.now history i call rfl) hlt
  unfold Reference.same
  rw [beq_eq_false_iff_ne.mpr hstamp.symm, Bool.and_false]

end Exact

end World

/-! ## Sharing -/

theorem requestsOf_concat (c : Nat) (script : List (Nat × Request)) (x : Nat × Request) :
    requestsOf c (script ++ [x]) = requestsOf c script ++ if x.1 = c then [x.2] else [] := by
  unfold requestsOf
  rw [List.filter_append, List.map_append]
  by_cases hx : x.1 = c
  · simp [hx]
  · simp [hx]

/-- No value has two owners. -/
def Exclusive (owns : Nat → Int32 → Bool) : Prop := ∀ c c' value, owns c value → owns c' value → c = c'

theorem Exclusive.eq_false {owns : Nat → Int32 → Bool} (h : Exclusive owns) {c c' : Nat} {value : Int32}
    (hc : owns c value = true) (hne : c' ≠ c) : owns c' value = false :=
  Bool.eq_false_iff.mpr fun hc' => hne (h c' c value hc' hc)

namespace Sharing

variable {geometry : Nat → Geometry} {hostOf : Nat → Nat} {d : Sharing geometry hostOf} {i : Nat}
  {stores : Nat → BackingStore} {history : List (Call × Reply)} {owns : Nat → Int32 → Bool} {x : Nat × Request}
  {script : List (Nat × Request)}

/-- The reply to a request. -/
def reply (i : Nat) (d : Sharing geometry hostOf) (x : Nat × Request) : ListReply :=
  (d.world.ask i (x.2.call (d.clients x.1).known)).1

theorem calls_serve (i : Nat) (d : Sharing geometry hostOf) (x : Nat × Request) : (d.serve i x).calls =
    d.calls ++ [(.list i (x.2.call (d.clients x.1).known), .list (d.reply i x))] := rfl

theorem clients_serve (i : Nat) (d : Sharing geometry hostOf) (x : Nat × Request) : (d.serve i x).clients =
    Function.update d.clients x.1 ((d.clients x.1).hear (d.reply i x)) := rfl

theorem created_serve_le (history : List (Call × Reply)) (i : Nat) (d : Sharing geometry hostOf)
    (x : Nat × Request) : created (history ++ d.calls) ≤ created (history ++ (d.serve i x).calls) := by
  rw [calls_serve, ← List.append_assoc, created_concat]
  exact Nat.le_add_right _ _

theorem seen_serve (i : Nat) (d : Sharing geometry hostOf) (x : Nat × Request) (c : Nat) :
    (d.clients c).seen ⊆ ((d.serve i x).clients c).seen := by
  rw [clients_serve]
  by_cases hc : c = x.1
  · rw [hc, Function.update_self]
    exact List.subset_append_left _ _
  · rw [Function.update_of_ne hc]
    exact List.Subset.refl _

theorem Roomy.of_serve (h : (d.serve i x).Roomy (script ++ [x])) :
    d.Roomy script ∧ (d.clients x.1).observe (d.reply i x) ≠ .refused .allocationExhausted := by
  refine ⟨fun y hy hmem => h y (List.mem_append_left _ hy) (seen_serve i d x y.1 hmem), fun he => ?_⟩
  refine h x (List.mem_append_right _ List.mem_cons_self) ?_
  rw [clients_serve, Function.update_self, ← he]
  exact List.mem_append_right _ List.mem_cons_self

/-- The world is that of a run, and every client keeps track of its nodes, which were all handed out for values
of its own. -/
structure Sound (d : Sharing geometry hostOf) (stores : Nat → BackingStore) (history : List (Call × Reply))
    (i : Nat) (owns : Nat → Int32 → Bool) : Prop where
  runs : World.Runs stores (history ++ d.calls) d.world
  tracks : ∀ c, (d.clients c).Tracks (owns c) (d.world.refs i)
  nodes : ∀ c, ∀ r ∈ (d.clients c).nodes, owns c r.value = true ∧ Issued (history ++ d.calls) r

/-- What a client has of the list. -/
def view (d : Sharing geometry hostOf) (i : Nat) (owns : Nat → Int32 → Bool) (c : Nat) : OwnList :=
  (d.clients c).view (owns c) (d.world.refs i)

section Exact

variable (hg : ∀ k, (geometry k).Exact)
include hg

theorem Sound.step (h : d.Sound stores history i owns) (x : Nat × Request) :
    ListStep ((d.world.allocators (hostOf i)).acquire Node.byteSize).1 (x.2.call (d.clients x.1).known)
      (d.reply i x) (d.world.refs i) ((d.serve i x).world.refs i) :=
  h.runs.ask hg i _

omit hg in
theorem Sound.runs_serve (h : d.Sound stores history i owns) (x : Nat × Request) :
    World.Runs stores (history ++ (d.serve i x).calls) (d.serve i x).world := by
  rw [calls_serve, ← List.append_assoc]
  exact h.runs.then_ask i _

/-- The nodes of a client after a request are its own, and were handed out. -/
theorem Sound.nodes_serve (h : d.Sound stores history i owns) (hown : owns x.1 x.2.value = true) (c : Nat) :
    ∀ r ∈ ((d.serve i x).clients c).nodes,
      owns c r.value = true ∧ Issued (history ++ (d.serve i x).calls) r := by
  intro r hr
  rw [calls_serve, ← List.append_assoc]
  rw [clients_serve] at hr
  by_cases hc : c = x.1
  · subst hc
    rw [Function.update_self] at hr
    rcases List.mem_append.mp hr with hr | hr
    · exact ⟨(h.nodes _ r hr).1, (h.nodes _ r hr).2.append _⟩
    · have hr := Option.mem_toList.mp hr
      rw [(h.step hg x).value_newcomer hr]
      rw [ListReply.eq_inserted hr]
      exact ⟨hown, _, i, .now _ i _ rfl⟩
  · rw [Function.update_of_ne hc] at hr
    exact ⟨(h.nodes c r hr).1, (h.nodes c r hr).2.append _⟩

theorem Sound.serve (hexclusive : Exclusive owns) (h : d.Sound stores history i owns)
    (hown : owns x.1 x.2.value = true) (hcount : created (history ++ (d.serve i x).calls) < 2 ^ 64) :
    (d.serve i x).Sound stores history i owns := by
  have hruns := h.runs_serve x
  have hnodes := h.nodes_serve hg hown
  refine ⟨hruns, fun c => ?_, hnodes⟩
  have hapart := hruns.apart hg hcount i (hnodes c)
  rw [clients_serve] at hapart ⊢
  by_cases hc : c = x.1
  · subst hc
    rw [Function.update_self] at hapart ⊢
    exact (h.tracks _).hear (h.step hg x) hown hapart
  · rw [Function.update_of_ne hc] at hapart ⊢
    exact (h.tracks c).other (h.step hg x) (hexclusive.eq_false hown hc) hapart

/-- A request moves the view of its client like a plain list, and no other one. -/
theorem Sound.view_serve (hexclusive : Exclusive owns) (h : d.Sound stores history i owns)
    (hown : owns x.1 x.2.value = true) (hcount : created (history ++ (d.serve i x).calls) < 2 ^ 64)
    (hroom : (d.clients x.1).observe (d.reply i x) ≠ .refused .allocationExhausted) (c : Nat) :
    (d.serve i x).view i owns c = if x.1 = c then (d.view i owns c).step x.2 else d.view i owns c := by
  have hstep := h.step hg x
  unfold view
  rw [clients_serve]
  split
  · rename_i hc
    subst hc
    rw [Function.update_self]
    refine (h.tracks _).view_hear hstep hown hroom fun r hr s hs => ?_
    have hruns := h.runs_serve x
    rw [calls_serve, ← List.append_assoc] at hruns hcount
    exact hruns.newcomer_fresh hg hcount hr (h.nodes _ s hs).2
  · rename_i hc
    rw [Function.update_of_ne (Ne.symm hc)]
    unfold Client.view
    rw [hstep.filter_other (hexclusive.eq_false hown (Ne.symm hc))]

end Exact

end Sharing

/-! ## Scripts -/

namespace World

variable {geometry : Nat → Geometry} {hostOf : Nat → Nat} {w : World geometry hostOf} {i : Nat}
  {stores : Nat → BackingStore} {history : List (Call × Reply)} {owns : Nat → Int32 → Bool} {knows : Bool}
  {script : List (Nat × Request)} {c : Nat}

theorem served_concat (w : World geometry hostOf) (i : Nat) (owns : Nat → Int32 → Bool) (knows : Bool)
    (script : List (Nat × Request)) (x : Nat × Request) :
    w.served i owns knows (script ++ [x]) = (w.served i owns knows script).serve i x := List.foldl_concat ..

section Exact

variable (hg : ∀ k, (geometry k).Exact)
include hg

/-- Clients that begin to share a list keep track of their nodes. -/
theorem Runs.share_sound (h : Runs stores history w) (i : Nat) (owns : Nat → Int32 → Bool) (knows : Bool)
    (hcount : created history < 2 ^ 64) : (w.share i owns knows).Sound stores history i owns := by
  have hnodes (c : Nat) : ∀ r ∈ ((w.share i owns knows).clients c).nodes,
      owns c r.value = true ∧ Issued history r := by
    intro r hr
    obtain ⟨hmem, hown⟩ := List.mem_filter.mp hr
    exact ⟨hown, h.issued_refs hg hmem⟩
  have hknown (c : Nat) : ∀ r, some r ∈ ((w.share i owns knows).clients c).known →
      r ∈ ((w.share i owns knows).clients c).nodes := by
    intro r hr
    cases knows with
    | false => cases hr
    | true =>
      obtain ⟨s, hs, he⟩ := List.mem_map.mp hr
      cases he
      exact hs
  have hcalls : history ++ (w.share i owns knows).calls = history := List.append_nil history
  refine ⟨?_, fun c => ⟨?_, hknown c, h.apart hg hcount i (hnodes c)⟩, ?_⟩
  · rw [hcalls]
    exact h
  · intro r hr hown
    exact List.mem_filter.mpr ⟨hr, hown⟩
  · rw [hcalls]
    exact hnodes

theorem Runs.view_share (h : Runs stores history w) (i : Nat) (owns : Nat → Int32 → Bool) (knows : Bool)
    (c : Nat) : (w.share i owns knows).view i owns c = .start ((w.valuesOf i).filter (owns c)) knows := by
  have hdistinct : ((w.share i owns knows).clients c).nodes.Pairwise fun r s => r.same s = false :=
    (h.refs_distinct hg i).sublist List.filter_sublist
  have hvalues : ((w.share i owns knows).clients c).nodes.map Reference.value = (w.valuesOf i).filter (owns c) := by
    rw [valuesOf_eq, List.filter_map]
    rfl
  have hlength : ((w.share i owns knows).clients c).nodes.length = ((w.valuesOf i).filter (owns c)).length := by
    rw [← hvalues, List.length_map]
  unfold Sharing.view Client.view OwnList.start
  rw [hlength, ← hvalues, ← Client.map_label_self hdistinct, hvalues, ← hlength]
  congr 1
  cases knows with
  | false => rfl
  | true =>
    rw [if_pos rfl, ← Client.map_number_self hdistinct, List.map_map]
    exact List.map_map

theorem Runs.served_sound (h : Runs stores history w) (hexclusive : Exclusive owns)
    (hown : ∀ x ∈ script, owns x.1 x.2.value = true)
    (hcount : created (history ++ (w.served i owns knows script).calls) < 2 ^ 64) :
    (w.served i owns knows script).Sound stores history i owns := by
  induction script using List.reverseRecOn with
  | nil =>
    change created (history ++ []) < 2 ^ 64 at hcount
    rw [List.append_nil] at hcount
    exact h.share_sound hg i owns knows hcount
  | append_singleton script x ih =>
    rw [served_concat] at hcount ⊢
    have hbefore := Nat.lt_of_le_of_lt (Sharing.created_serve_le history i _ x) hcount
    exact (ih (fun y hy => hown y (List.mem_append_left _ hy)) hbefore).serve hg hexclusive
      (hown x (List.mem_append_right _ List.mem_cons_self)) hcount

/-- A script moves the view of each client as its own requests move a plain list. -/
theorem Runs.view_served (h : Runs stores history w) (hexclusive : Exclusive owns)
    (hown : ∀ x ∈ script, owns x.1 x.2.value = true) (hroom : (w.served i owns knows script).Roomy script)
    (hcount : created (history ++ (w.served i owns knows script).calls) < 2 ^ 64) (c : Nat) :
    (w.served i owns knows script).view i owns c =
      (requestsOf c script).foldl OwnList.step (.start ((w.valuesOf i).filter (owns c)) knows) := by
  induction script using List.reverseRecOn with
  | nil => exact h.view_share hg i owns knows c
  | append_singleton script x ih =>
    rw [served_concat] at hroom hcount ⊢
    have hbefore := Nat.lt_of_le_of_lt (Sharing.created_serve_le history i _ x) hcount
    have hown' := fun y hy => hown y (List.mem_append_left _ hy)
    have hsound := h.served_sound hg hexclusive hown' hbefore
    rw [hsound.view_serve hg hexclusive (hown x (List.mem_append_right _ List.mem_cons_self)) hcount
      hroom.of_serve.2, ih hown' hroom.of_serve.1 hbefore, requestsOf_concat, List.foldl_append]
    split <;> rfl

end Exact

end World

/-- What a client sees alone, and the values that it leaves, are those of a plain list. -/
theorem RunsAlone.eq_ownList {knows : Bool} {values final : List Int32} {requests : List Request}
    {seen : List Observation} (h : RunsAlone knows values requests seen final) :
    seen = (requests.foldl OwnList.step (.start values knows)).seen ∧
      final = (requests.foldl OwnList.step (.start values knows)).nodes.map Prod.snd := by
  cases h with
  | @intro geometry hostOf stores history w i _ hg h hroom hcount =>
    have hexclusive : Exclusive fun c _ => c == 0 := fun c c' _ hc hc' => (eq_of_beq hc).trans (eq_of_beq hc').symm
    have hown : ∀ x ∈ requests.map (Prod.mk 0), (fun c (_ : Int32) => c == 0) x.1 x.2.value = true := by
      intro x hx
      obtain ⟨q, -, rfl⟩ := List.mem_map.mp hx
      rfl
    have hall (values : List Int32) : (values.filter fun _ => (0 : Nat) == 0) = values :=
      List.filter_eq_self.mpr fun _ _ => rfl
    have hrequests : requestsOf 0 (requests.map (Prod.mk 0)) = requests := by
      unfold requestsOf
      rw [List.filter_eq_self.mpr, List.map_map]
      · exact List.map_id _
      · intro x hx
        obtain ⟨q, -, rfl⟩ := List.mem_map.mp hx
        rfl
    have hview := h.view_served hg hexclusive hown hroom hcount 0
    rw [hrequests, hall] at hview
    rw [← hview]
    refine ⟨rfl, ?_⟩
    unfold Sharing.view
    rw [Client.values_view, ← World.valuesOf_eq, hall]
    rfl

namespace World

variable {geometry : Nat → Geometry} {hostOf : Nat → Nat} {w : World geometry hostOf} {i : Nat}
  {stores : Nat → BackingStore} {history : List (Call × Reply)} {owns : Nat → Int32 → Bool} {knows : Bool}
  {script : List (Nat × Request)}

/-- Clients with values of their own do not disturb each other. In whatever order their requests are served, if
there is room for all nodes and a stamp for each, every client sees what it sees in every run of its own requests
alone, on a list that has its values only, and it leaves the same values in the list. -/
theorem Runs.clients_undisturbed (hg : ∀ k, (geometry k).Exact) (h : Runs stores history w)
    (hexclusive : Exclusive owns) (hown : ∀ x ∈ script, owns x.1 x.2.value = true)
    (hroom : (w.served i owns knows script).Roomy script)
    (hcount : created (history ++ (w.served i owns knows script).calls) < 2 ^ 64) (c : Nat)
    {seen : List Observation} {final : List Int32}
    (halone : RunsAlone knows ((w.valuesOf i).filter (owns c)) (requestsOf c script) seen final) :
    ((w.served i owns knows script).clients c).seen = seen ∧
      ((w.served i owns knows script).world.valuesOf i).filter (owns c) = final := by
  have hview := h.view_served hg hexclusive hown hroom hcount c
  obtain ⟨hseen, hfinal⟩ := halone.eq_ownList
  rw [← hview] at hseen hfinal
  refine ⟨hseen.symm, ?_⟩
  rw [hfinal, valuesOf_eq, Sharing.view, Client.values_view]

/-! ## Lists to share -/

/-- A list of the given values, in an arena of one KiB. -/
def listed (values : List Int32) : World (fun _ => .standard) fun _ => 0 :=
  values.foldr (fun value w => (w.perform (.list 0 (.insertFront value))).2)
    ((World.start fun _ => .zeroed (fun _ => true) 4096).perform (.init 0 1024)).2

theorem listed_runs (values : List Int32) : ∃ history, history.length = values.length + 1 ∧
    Runs (fun _ => .zeroed (fun _ => true) 4096) history (listed values) := by
  induction values with
  | nil => exact ⟨_, rfl, .step .start (allowed_first 1024 (by decide) (by decide))⟩
  | cons value values ih =>
    obtain ⟨history, hlength, hruns⟩ := ih
    refine ⟨_, ?_, @Runs.step _ _ _ _ _ (.list 0 (.insertFront value)) hruns trivial⟩
    rw [List.length_append, hlength]
    rfl

theorem length_calls_served (w : World geometry hostOf) (i : Nat) (owns : Nat → Int32 → Bool) (knows : Bool)
    (script : List (Nat × Request)) : (w.served i owns knows script).calls.length = script.length := by
  induction script using List.reverseRecOn with
  | nil => rfl
  | append_singleton script x ih =>
    rw [served_concat, Sharing.calls_serve, List.length_append, ih, List.length_append]
    rfl

/-- There is a stamp for every node of a short run. -/
theorem created_served_lt (hshort : history.length + script.length < 2 ^ 64) :
    created (history ++ (w.served i owns knows script).calls) < 2 ^ 64 := by
  refine Nat.lt_of_le_of_lt (created_le_length _) ?_
  rw [List.length_append, length_calls_served]
  exact hshort

/-- A client that is alone with a list of the given values, if there is room for its nodes. -/
theorem listed_alone {values : List Int32} {requests : List Request}
    (hroom : ((listed values).alone 0 knows requests).Roomy (requests.map (Prod.mk 0)))
    (hshort : values.length + 1 + requests.length < 2 ^ 64) (hvalues : (listed values).valuesOf 0 = values) :
    RunsAlone knows values requests (((listed values).alone 0 knows requests).clients 0).seen
      (((listed values).alone 0 knows requests).world.valuesOf 0) := by
  obtain ⟨history, hlength, hruns⟩ := listed_runs values
  have halone := RunsAlone.intro (fun _ => Geometry.standard_exact) hruns hroom (created_served_lt (by
    rw [hlength, List.length_map]
    exact hshort))
  rw [hvalues] at halone
  exact halone

/-- Client `c` owns ten values from `10 * c` on. -/
def decades (c : Nat) (value : Int32) : Bool := value.toInt / 10 == c

theorem decades_exclusive : Exclusive decades := by
  intro c c' value hc hc'
  have hc : value.toInt / 10 = c := eq_of_beq hc
  have hc' : value.toInt / 10 = c' := eq_of_beq hc'
  omega

/-- Client 1 deletes a node. Client 0 has the block then, and the reference of client 1 leads nowhere. -/
def reuses : List (Nat × Request) := [(1, .search 12), (1, .delete 12), (0, .insertFront 6),
  (1, .insertBeside .behind 0 13), (0, .search 1), (0, .insertBeside .inFront 1 7), (1, .search 11)]

theorem reuses_undisturbed :
    RunsAlone false (((listed [12, 1, 11]).valuesOf 0).filter (decades 1)) (requestsOf 1 reuses)
        [.found (some 0), .done, .refused .notFound, .found (some 1)] [11] ∧
      (((listed [12, 1, 11]).served 0 decades false reuses).clients 1).seen =
        [.found (some 0), .done, .refused .notFound, .found (some 1)] ∧
      (((listed [12, 1, 11]).served 0 decades false reuses).world.valuesOf 0).filter (decades 1) = [11] := by
  obtain ⟨history, hlength, hruns⟩ := listed_runs [12, 1, 11]
  have hvalues : ((listed [12, 1, 11]).valuesOf 0).filter (decades 1) = [12, 11] := by decide +kernel
  have halone := @listed_alone false [12, 11] (requestsOf 1 reuses) (by decide +kernel) (by decide +kernel)
    (by decide +kernel)
  have hseen : (((listed [12, 11]).alone 0 false (requestsOf 1 reuses)).clients 0).seen =
      [.found (some 0), .done, .refused .notFound, .found (some 1)] := by decide +kernel
  have hfinal : ((listed [12, 11]).alone 0 false (requestsOf 1 reuses)).world.valuesOf 0 = [11] := by
    decide +kernel
  rw [hseen, hfinal, ← hvalues] at halone
  refine ⟨halone, hruns.clients_undisturbed (fun _ => Geometry.standard_exact) decades_exclusive (by decide)
    (by decide +kernel) (created_served_lt ?_) 1 halone⟩
  rw [hlength]
  decide

/-- The list as both clients leave it: each part is as it would be alone. -/
example : ((listed [12, 1, 11]).served 0 decades false reuses).world.valuesOf 0 = [6, 7, 1, 11] := by
  decide +kernel

end World

end ArenaHeap
