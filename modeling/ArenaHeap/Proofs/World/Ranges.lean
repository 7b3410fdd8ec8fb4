import ArenaHeap.Proofs.World.References

/-!
# Ranges are parts of sequences

* `perform_range` : a range has the values of a part of the nodes of a list;
* `World.RangesAreParts` : what that part is, by references and by the dates of nodes;
* `Runs.ranges_are_parts` : so it is after every run.
-/

namespace ArenaHeap

/-- Whether the two are the same node, by their dates. -/
def Dated.names (d x : Dated) : Bool := x.date == d.date

namespace World

variable {geometry : Nat → Geometry} {hostOf : Nat → Nat} {w : World geometry hostOf}
  {stores : Nat → BackingStore} {history : List (Call × Reply)} {i : Nat}

/-- What list `i` answers when it is asked for a range. -/
def rangeOf (w : World geometry hostOf) (i : Nat) (start stop : Option Reference) : Reply :=
  (w.perform (.list i (.range start stop))).1

theorem rangeOf_eq (w : World geometry hostOf) (i : Nat) (start stop : Option Reference) :
    w.rangeOf i start stop =
      .list (.values ((part Reference.names start stop (w.refs i)).map Reference.value)) :=
  congrArg (fun values => Reply.list (.values values)) (NodeList.slice_eq start stop _)

/-- The ranges of list `i` are parts of its sequence. The start is the first node without a reference, and else the
node that it leads to; without such a node there is nothing. The end is the first node from there on that the other
reference leads to; without such a node it is the last, also if the node that it leads to comes before the start.
What a reference leads to is said by address and stamp, and, if it was handed out and the stamps do not run out, by
the date of its node. -/
structure RangesAreParts (history : List (Call × Reply)) (w : World geometry hostOf) (i : Nat) : Prop where
  sequence : w.refs i = ((annals history).nodes i).map Dated.ref
  distinct : (w.refs i).Pairwise fun x y => x.same y = false
  parts : ∀ start stop, w.rangeOf i start stop =
    .list (.values ((part Reference.names start stop (w.refs i)).map Reference.value))
  missing : ∀ r, (∀ x ∈ w.refs i, r.names x = false) → ∀ stop, w.rangeOf i (some r) stop = .list (.values [])
  unmet : ∀ start r, (∀ x ∈ onward Reference.names start (w.refs i), r.names x = false) →
    w.rangeOf i start (some r) = w.rangeOf i start none
  passed : ∀ as x bs r r', w.refs i = as ++ x :: bs → r.names x = true → (∃ y ∈ as, r'.names y = true) →
    w.rangeOf i (some r) (some r') = .list (.values ((x :: bs).map Reference.value))
  halves : ∀ as x y bs, w.refs i = as ++ x :: y :: bs → ∃ front back,
    w.rangeOf i none (some x) = .list (.values front) ∧ w.rangeOf i (some y) none = .list (.values back) ∧
    (w.perform (.list i .values)).1 = .list (.values (front ++ back))
  dated : created history < 2 ^ 64 → ∀ start stop : Option Dated, (∀ d ∈ start, d ∈ (annals history).issued) →
    (∀ d ∈ stop, d ∈ (annals history).issued) → w.rangeOf i (start.map Dated.ref) (stop.map Dated.ref) =
      .list (.values ((part Dated.names start stop ((annals history).nodes i)).map (·.ref.value)))

/-- In front of a node there is no node that its references lead to. -/
theorem not_names {as bs : List Reference} {x r : Reference}
    (hdistinct : (as ++ x :: bs).Pairwise fun x y => x.same y = false) (hx : r.names x = true) :
    ∀ a ∈ as, r.names a = false := by
  intro a ha
  by_contra hnames
  have hsame := Reference.same_of_names ((Bool.not_eq_false _).mp hnames) hx
  rw [(List.pairwise_append.mp hdistinct).2.2 a ha x List.mem_cons_self] at hsame
  cases hsame

/-- After every run, ranges are parts of sequences. -/
theorem Runs.ranges_are_parts (hg : ∀ k, (geometry k).Exact) (h : Runs stores history w) (i : Nat) :
    w.RangesAreParts history i := by
  obtain ⟨entries, n, hw, hrecorded⟩ := h.recorded hg
  have hsequence : w.refs i = ((annals history).nodes i).map Dated.ref := hrecorded.lists hw i
  have hdistinct := h.refs_distinct hg i
  refine ⟨hsequence, hdistinct, w.rangeOf_eq i, fun r hnone stop => ?_, fun start r hnone => ?_,
    fun as x bs r r' hrefs hx hpassed => ?_, fun as x y bs hrefs => ?_, fun hcount start stop hstart hstop => ?_⟩
  · rw [rangeOf_eq, part, onward_missing hnone, upTo_nil]
    rfl
  · rw [rangeOf_eq, rangeOf_eq, part, upTo_missing hnone]
    rfl
  · obtain ⟨y, hy, hyr⟩ := hpassed
    rw [hrefs] at hdistinct
    rw [rangeOf_eq, hrefs, part, onward_split hx (not_names hdistinct hx), upTo_missing]
    intro z hz
    by_contra hnames
    have hsame := Reference.same_of_names hyr ((Bool.not_eq_false _).mp hnames)
    rw [(List.pairwise_append.mp hdistinct).2.2 y hy z hz] at hsame
    cases hsame
  · have hsplit : as ++ x :: y :: bs = (as ++ [x]) ++ y :: bs := by
      rw [List.append_assoc, List.singleton_append]
    rw [hrefs] at hdistinct
    refine ⟨(as ++ [x]).map Reference.value, (y :: bs).map Reference.value, ?_, ?_, ?_⟩
    · rw [rangeOf_eq, hrefs, part, onward, upTo_split x.names_self (not_names hdistinct x.names_self)]
    · rw [hsplit] at hrefs hdistinct
      rw [rangeOf_eq, hrefs, part, onward_split y.names_self (not_names hdistinct y.names_self)]
      rfl
    · have hall : (w.perform (.list i .values)).1 = w.rangeOf i none none := rfl
      rw [hall, rangeOf_eq, hrefs, hsplit, ← List.map_append]
      rfl
  · -- A reference that was handed out leads to a node if and only if it is that of the node's own date.
    have hnames : ∀ d ∈ (annals history).issued, ∀ x ∈ (annals history).nodes i,
        Reference.names d.ref x.ref = Dated.names d x := by
      intro d hd x hx
      rw [Bool.eq_iff_iff, Dated.names, beq_iff_eq]
      exact hrecorded.same_iff hcount (hrecorded.linked i x hx) hd
    rw [rangeOf_eq, hsequence, part_map (fun d hd => hnames d (hstart d hd)) fun d hd => hnames d (hstop d hd),
      List.map_map]
    rfl

theorem tiny_ranges_are_parts :
    ∃ history, history.map Prod.fst = [.init 0 256, .acquire 0 20, .list 0 (.insertFront 7)] ∧
      tiny.RangesAreParts history 0 := by
  obtain ⟨history, hcalls, hruns⟩ := tiny_runs
  exact ⟨history, hcalls, hruns.ranges_are_parts (fun _ => Geometry.standard_exact) 0⟩

end World

end ArenaHeap
