import ArenaHeap.Proofs.Clients.Disjoint

/-!
# Clients with segments of their own

A list is made of segments, one for each client. As long as the clients put nodes only next to nodes of their
own, each edit is inside the segment of its client, even at its edges and even if it has shrunk to nothing. So the
segments stay where they are, and what becomes of each does not depend on when the others are served.

* `spliceFirst_flatMap` : a splice of lists in a row is a splice of one of them;
* `Segmented` : each client has a segment; `Segmented.splice`, `Segmented.step` are what keeps it so;
* `World.Runs.served_segmented` : so it is after every step of a script;
* `World.Runs.segments_confluent` : the list is made of what each client would have alone, and the order in which
  the clients are served does not matter.
-/

namespace ArenaHeap

/-! ## Splices of lists in a row -/

section Splice

variable {α ι : Type} {q : α → Bool} {f : α → List α} {as bs xs : List α}

theorem spliceFirst_append_left (h : ∀ a ∈ as, q a = false) (xs : List α) :
    spliceFirst q f (as ++ xs) = as ++ spliceFirst q f xs := by
  induction as with
  | nil => rfl
  | cons a as ih =>
    obtain ⟨ha, has⟩ := List.forall_mem_cons.mp h
    rw [List.cons_append, spliceFirst, if_neg (Bool.eq_false_iff.mp ha), ih has]
    rfl

theorem spliceFirst_append_right (h : ∀ b ∈ bs, q b = false) (xs : List α) :
    spliceFirst q f (xs ++ bs) = spliceFirst q f xs ++ bs := by
  induction xs with
  | nil => exact spliceFirst_of_none h
  | cons x xs ih =>
    rw [List.cons_append, spliceFirst, spliceFirst, ih]
    split
    · rw [List.append_assoc]
    · rfl

/-- What is met in one of some lists only is spliced in that list. -/
theorem spliceFirst_flatMap {segment : ι → List α} {cs : List ι} {c : ι} (hnodup : cs.Nodup)
    (h : ∀ c' ∈ cs, c' ≠ c → ∀ x ∈ segment c', q x = false) :
    spliceFirst q f (cs.flatMap segment) = cs.flatMap fun c' => spliceFirst q f (segment c') := by
  induction cs with
  | nil => rfl
  | cons a cs ih =>
    obtain ⟨ha, hnodup⟩ := List.nodup_cons.mp hnodup
    obtain ⟨hfirst, hrest⟩ := List.forall_mem_cons.mp h
    rw [List.flatMap_cons, List.flatMap_cons, ← ih hnodup hrest]
    by_cases hac : a = c
    · -- It is met in no later list, since no list comes twice.
      have hnone : ∀ x ∈ cs.flatMap segment, q x = false := by
        intro x hx
        obtain ⟨c', hc', hx⟩ := List.mem_flatMap.mp hx
        exact hrest c' hc' (fun he => ha (by rwa [hac, ← he])) x hx
      rw [spliceFirst_append_right hnone, spliceFirst_of_none hnone]
    · rw [spliceFirst_append_left (hfirst hac), spliceFirst_of_none (hfirst hac)]

end Splice

/-! ## Segments -/

/-- The nodes of each client stand together, one client after the other, and there are no other nodes. -/
def Segmented (owns : Nat → Int32 → Bool) (cs : List Nat) (refs : List Reference) : Prop :=
  refs = cs.flatMap fun c => refs.filter fun r => owns c r.value

instance (owns : Nat → Int32 → Bool) (cs : List Nat) (refs : List Reference) : Decidable (Segmented owns cs refs) :=
  inferInstanceAs (Decidable (refs = _))

section Segments

variable {owns : Nat → Int32 → Bool} {cs : List Nat} {refs after : List Reference} {c : Nat}

/-- What is spliced among the nodes of one client, and with nodes of the same client, leaves all segments. -/
theorem Segmented.splice (hexclusive : Exclusive owns) (hnodup : cs.Nodup) (h : Segmented owns cs refs) (c : Nat)
    {q : Reference → Bool} {f : Reference → List Reference}
    (hq : ∀ r ∈ refs, q r = true → owns c r.value = true ∧ ∀ s ∈ f r, owns c s.value = true) :
    Segmented owns cs (spliceFirst q f refs) := by
  have hnone {c' : Nat} (hc : c' ≠ c) : ∀ r ∈ refs.filter fun r => owns c' r.value, q r = false := by
    intro r hr
    obtain ⟨hr, hown⟩ := List.mem_filter.mp hr
    exact Bool.eq_false_iff.mpr fun hqr => hc (hexclusive c' c _ hown (hq r hr hqr).1)
  have hsegment (c' : Nat) : (spliceFirst q f refs).filter (fun r => owns c' r.value) =
      spliceFirst q f (refs.filter fun r => owns c' r.value) := by
    by_cases hc : c' = c
    · subst hc
      exact filter_spliceFirst fun r hr hqr => ⟨(hq r hr hqr).1, List.filter_eq_self.mpr (hq r hr hqr).2⟩
    · rw [spliceFirst_of_none (hnone hc)]
      refine filter_spliceFirst_eq fun r hr hqr => ?_
      obtain ⟨hown, hnew⟩ := hq r hr hqr
      rw [List.filter_eq_nil_iff.mpr fun s hs => Bool.eq_false_iff.mp (hexclusive.eq_false (hnew s hs) hc),
        List.filter_singleton, hexclusive.eq_false hown hc]
      rfl
  unfold Segmented
  simp only [hsegment]
  rw [← spliceFirst_flatMap hnodup fun c' _ hc => hnone hc, ← h]

/-- A request of a client for its own nodes leaves all segments. -/
theorem Segmented.step (hexclusive : Exclusive owns) (hnodup : cs.Nodup) (h : Segmented owns cs refs)
    {client : Client} {q : Request} {acquired : Except Fault Token} {reply : ListReply}
    (htracks : client.Tracks (owns c) refs)
    (hstep : ListStep acquired (q.call client.known) reply refs after) (hown : owns c q.value = true)
    (hinside : q.isFront = false) : Segmented owns cs after := by
  rcases hstep.request_cases with
    ⟨-, -, rfl⟩ | ⟨hfront, -⟩ | ⟨side, x, r, hx, -, hvalue, rfl⟩ | ⟨-, rfl⟩
  · exact h
  · rw [hinside] at hfront
    cases hfront
  · refine h.splice hexclusive hnodup c fun s hs hsame => ?_
    have hsown := htracks.apart s hs x (htracks.known x hx) hsame
    refine ⟨hsown, fun t ht => ?_⟩
    rcases Side.mem_put.mp ht with rfl | rfl
    · exact hsown
    · rw [hvalue]
      exact hown
  · refine h.splice hexclusive hnodup c fun s _ hs => ⟨?_, nofun⟩
    rw [eq_of_beq hs]
    exact hown

/-- The values of a list of segments are those of each client in turn. -/
theorem Segmented.values_eq (h : Segmented owns cs refs) :
    refs.map Reference.value = cs.flatMap fun c => (refs.map Reference.value).filter (owns c) := by
  have hvalues (c : Nat) : (refs.map Reference.value).filter (owns c) =
      (refs.filter fun r => owns c r.value).map Reference.value := List.filter_map
  simp only [hvalues]
  rw [← List.map_flatMap, ← h]

end Segments

/-! ## Scripts -/

theorem mem_requestsOf {c : Nat} {q : Request} {script : List (Nat × Request)} :
    q ∈ requestsOf c script ↔ (c, q) ∈ script := by
  unfold requestsOf
  rw [List.mem_map]
  constructor
  · rintro ⟨x, hx, rfl⟩
    obtain ⟨hx, hc⟩ := List.mem_filter.mp hx
    rw [← eq_of_beq hc]
    exact hx
  · intro h
    exact ⟨(c, q), List.mem_filter.mpr ⟨h, beq_self_eq_true c⟩, rfl⟩

namespace World

variable {geometry : Nat → Geometry} {hostOf : Nat → Nat} {w : World geometry hostOf} {i : Nat}
  {stores : Nat → BackingStore} {history : List (Call × Reply)} {owns : Nat → Int32 → Bool} {knows : Bool}
  {script before after : List (Nat × Request)} {cs : List Nat}

theorem created_served_le (history : List (Call × Reply)) (w : World geometry hostOf) (i : Nat)
    (owns : Nat → Int32 → Bool) (knows : Bool) (before after : List (Nat × Request)) :
    created (history ++ (w.served i owns knows before).calls) ≤
      created (history ++ (w.served i owns knows (before ++ after)).calls) := by
  induction after using List.reverseRecOn with
  | nil => rw [List.append_nil]
  | append_singleton after x ih =>
    rw [← List.append_assoc, served_concat]
    exact Nat.le_trans ih (Sharing.created_serve_le history i _ x)

section Exact

variable (hg : ∀ k, (geometry k).Exact)
include hg

/-- The segments stay. -/
theorem Runs.served_segmented (h : Runs stores history w) (hexclusive : Exclusive owns) (hnodup : cs.Nodup)
    (hstart : Segmented owns cs (w.refs i)) (hown : ∀ x ∈ script, owns x.1 x.2.value = true)
    (hinside : ∀ x ∈ script, x.2.isFront = false)
    (hcount : created (history ++ (w.served i owns knows script).calls) < 2 ^ 64) :
    Segmented owns cs ((w.served i owns knows script).world.refs i) := by
  induction script using List.reverseRecOn with
  | nil => exact hstart
  | append_singleton script x ih =>
    have hbefore := Nat.lt_of_le_of_lt (created_served_le history w i owns knows script [x]) hcount
    have hown' := fun y hy => hown y (List.mem_append_left _ hy)
    have hsound := h.served_sound hg hexclusive hown' hbefore
    have hsegmented := ih hown' (fun y hy => hinside y (List.mem_append_left _ hy)) hbefore
    have hx : x ∈ script ++ [x] := List.mem_append_right _ List.mem_cons_self
    rw [served_concat]
    exact hsegmented.step hexclusive hnodup (hsound.tracks x.1) (hsound.step hg x) (hown x hx) (hinside x hx)

/-- The values of a list of segments after a script, by what each client would have alone. -/
theorem Runs.values_served (h : Runs stores history w) (hexclusive : Exclusive owns) (hnodup : cs.Nodup)
    (hstart : Segmented owns cs (w.refs i)) (hown : ∀ x ∈ script, owns x.1 x.2.value = true)
    (hinside : ∀ x ∈ script, x.2.isFront = false) (hroom : (w.served i owns knows script).Roomy script)
    (hcount : created (history ++ (w.served i owns knows script).calls) < 2 ^ 64) :
    (w.served i owns knows script).world.valuesOf i = cs.flatMap fun c =>
      ((requestsOf c script).foldl OwnList.step (.start ((w.valuesOf i).filter (owns c)) knows)).nodes.map
        Prod.snd := by
  have hsegmented := h.served_segmented hg hexclusive hnodup hstart hown hinside hcount
  rw [valuesOf_eq, hsegmented.values_eq]
  refine List.flatMap_congr fun c _ => ?_
  rw [← h.view_served hg hexclusive hown hroom hcount c, Sharing.view, Client.values_view]

/-- Positional editing is confluent. On a list of segments, clients put nodes next to nodes of their own, dead or
alive, and delete and search for values of their own. After every step the list is made of the same segments in the
same order. In the end it has, for each client in turn, the values that the client leaves in every run of its own
requests alone on its segment. If the same requests of each client are served in another order, the list has the
same values in the end. -/
theorem Runs.segments_confluent (h : Runs stores history w) (hexclusive : Exclusive owns) (hnodup : cs.Nodup)
    (hstart : Segmented owns cs (w.refs i)) (hown : ∀ x ∈ script, owns x.1 x.2.value = true)
    (hinside : ∀ x ∈ script, x.2.isFront = false) (hroom : (w.served i owns knows script).Roomy script)
    (hcount : created (history ++ (w.served i owns knows script).calls) < 2 ^ 64) :
    (∀ before after, script = before ++ after →
      Segmented owns cs ((w.served i owns knows before).world.refs i)) ∧
    (∀ (seen : Nat → List Observation) (final : Nat → List Int32), (∀ c ∈ cs,
        RunsAlone knows ((w.valuesOf i).filter (owns c)) (requestsOf c script) (seen c) (final c)) →
      (w.served i owns knows script).world.valuesOf i = cs.flatMap final) ∧
    ∀ other, (∀ c, requestsOf c other = requestsOf c script) → (w.served i owns knows other).Roomy other →
      created (history ++ (w.served i owns knows other).calls) < 2 ^ 64 →
        (w.served i owns knows other).world.valuesOf i = (w.served i owns knows script).world.valuesOf i := by
  have hvalues := h.values_served hg hexclusive hnodup hstart hown hinside hroom hcount
  refine ⟨?_, ?_, ?_⟩
  · rintro before after rfl
    exact h.served_segmented hg hexclusive hnodup hstart (fun x hx => hown x (List.mem_append_left _ hx))
      (fun x hx => hinside x (List.mem_append_left _ hx))
      (Nat.lt_of_le_of_lt (created_served_le history w i owns knows before after) hcount)
  · intro seen final halone
    rw [hvalues]
    exact List.flatMap_congr fun c hc => (halone c hc).eq_ownList.2.symm
  · intro other hsame hroom' hcount'
    have hmem : ∀ x ∈ other, x ∈ script := by
      intro x hx
      have hrequest : x.2 ∈ requestsOf x.1 other := mem_requestsOf.mpr hx
      rw [hsame] at hrequest
      exact mem_requestsOf.mp hrequest
    rw [h.values_served hg hexclusive hnodup hstart (fun x hx => hown x (hmem x hx))
      (fun x hx => hinside x (hmem x hx)) hroom' hcount', hvalues]
    simp only [hsame]

end Exact

/-- Three segments: of client 1, of client 2 and of client 0. -/
def segments : World (fun _ => .standard) fun _ => 0 := listed [11, 12, 21, 1]

/-- Nodes are put at the edges of segments, one of them loses its only node, and its client still has the reference
to it. -/
def edges : List (Nat × Request) := [(1, .insertBeside .behind 1 13), (2, .delete 21),
  (0, .insertBeside .inFront 0 2), (2, .insertBeside .behind 0 22), (1, .delete 11)]

/-- The same requests, served in another order. -/
def edgesLater : List (Nat × Request) := [(2, .delete 21), (2, .insertBeside .behind 0 22),
  (1, .insertBeside .behind 1 13), (1, .delete 11), (0, .insertBeside .inFront 0 2)]

theorem edges_confluent :
    (∀ before after, edges = before ++ after →
      Segmented decades [1, 2, 0] ((segments.served 0 decades true before).world.refs 0)) ∧
    (∃ (seen : Nat → List Observation) (final : Nat → List Int32),
      (∀ c ∈ [1, 2, 0], RunsAlone true ((segments.valuesOf 0).filter (decades c)) (requestsOf c edges) (seen c)
        (final c)) ∧
      [1, 2, 0].map final = [[12, 13], [], [2, 1]] ∧
      (segments.served 0 decades true edges).world.valuesOf 0 = [1, 2, 0].flatMap final) ∧
    (segments.served 0 decades true edgesLater).world.valuesOf 0 =
      (segments.served 0 decades true edges).world.valuesOf 0 := by
  obtain ⟨history, hlength, hruns⟩ := listed_runs [11, 12, 21, 1]
  have hcount {script : List (Nat × Request)} (hscript : script.length = 5) :
      created (history ++ (segments.served 0 decades true script).calls) < 2 ^ 64 := by
    refine created_served_lt ?_
    rw [hlength, hscript]
    decide
  obtain ⟨hsegments, halone, horder⟩ := Runs.segments_confluent (fun _ => Geometry.standard_exact) hruns
    decades_exclusive (by decide : [1, 2, 0].Nodup) (by decide +kernel) (by decide) (by decide) (by decide +kernel)
    (@hcount edges rfl)
  -- Each client alone, on its part of the list.
  have hroom : ∀ c ∈ [1, 2, 0], ((listed ((segments.valuesOf 0).filter (decades c))).alone 0 true
      (requestsOf c edges)).Roomy ((requestsOf c edges).map (Prod.mk 0)) := by decide +kernel
  have hshort : ∀ c ∈ [1, 2, 0], ((segments.valuesOf 0).filter (decades c)).length + 1 +
      (requestsOf c edges).length < 2 ^ 64 := by decide +kernel
  have hvalues : ∀ c ∈ [1, 2, 0], (listed ((segments.valuesOf 0).filter (decades c))).valuesOf 0 =
      (segments.valuesOf 0).filter (decades c) := by decide +kernel
  have hruns (c : Nat) (hc : c ∈ [1, 2, 0]) := listed_alone (hroom c hc) (hshort c hc) (hvalues c hc)
  refine ⟨hsegments, ⟨_, _, hruns, by decide +kernel, halone _ _ hruns⟩,
    horder edgesLater (fun c => ?_) (by decide +kernel) (hcount rfl)⟩
  rcases c with _ | _ | _ | c <;> rfl

end World

end ArenaHeap
