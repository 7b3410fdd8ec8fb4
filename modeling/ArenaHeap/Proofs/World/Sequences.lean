import ArenaHeap.Proofs.World.Steps

/-!
# Lists are sequences

Each list of a world is a sequence of nodes, whatever happens to the allocators, and every call on it is
the step of the sequence that its name says.

* `Allocator.Spells` : nodes that are linked one to the next up to the end;
* `World.refs` : the references to the nodes of a list (`Sound.refs_eq`, `Runs.refs_distinct`);
* `World.Represents` : each list is linked like its sequence, and no two nodes of any lists are the same;
* `Runs` : the calls and replies of a run from the start; `SequenceRuns` is what they mean for sequences;
* `Replays` : calls that get some replies one after the other, as a run can go on (`Runs.replay`);
* `Runs.represent_sequences` : after every run, each list is the sequence that the run led to.
-/

namespace ArenaHeap

/-- The nodes are linked one to the next, from a first link up to the end. -/
inductive Allocator.Spells {g : Geometry} (a : Allocator g) : Option UInt64 → List Placed → Prop
  | stop : Spells a none []
  | step {address : UInt64} {ps : List Placed} (h : Spells a (a.node address).next ps) :
    Spells a (some address) (⟨address, a.node address⟩ :: ps)

theorem Entry.Linked.spells {g : Geometry} {a : Allocator g} {es : List Entry} (h : Linked a none es) :
    a.Spells (first none es) (placed none es) := by
  induction es with
  | nil => exact .stop
  | cons e es ih =>
    have hnode : a.node e.token.address = e.node (first none es) := h.1.2
    have hstep : a.Spells (some e.token.address)
        (⟨e.token.address, a.node e.token.address⟩ :: placed none es) := by
      refine .step ?_
      rw [hnode]
      exact ih h.2
    rw [hnode] at hstep
    exact hstep

namespace World

variable {geometry : Nat → Geometry} {hostOf : Nat → Nat} {w : World geometry hostOf}
  {entries : Nat → List Entry} {n : Nat} {stores : Nat → BackingStore} {trace : List (Call × Reply)}

/-- The references to the nodes of list `i`, in order. -/
def refs (w : World geometry hostOf) (i : Nat) : List Reference :=
  ((w.lists i).nodes (w.allocators (hostOf i))).map Placed.ref

/-- Each list is linked in memory like its sequence, and no two nodes of any lists are the same. -/
structure Represents (w : World geometry hostOf) (refs : Nat → List Reference) : Prop where
  spells : ∀ i, ∃ ps, (w.allocators (hostOf i)).Spells (w.lists i).head ps ∧ ps.map Placed.ref = refs i
  distinct : ∀ i, (refs i).Pairwise fun r r' => r.same r' = false
  apart : ∀ i j, i ≠ j → ∀ r ∈ refs i, ∀ r' ∈ refs j, r.same r' = false

/-- The calls and replies of a run of allowed calls from the start, and the world after it. -/
inductive Runs (stores : Nat → BackingStore) : List (Call × Reply) → World geometry hostOf → Prop
  | start : Runs stores [] (World.start stores)
  | step {trace : List (Call × Reply)} {w : World geometry hostOf} {call : Call} (h : Runs stores trace w)
    (hok : w.Allowed call) : Runs stores (trace ++ [(call, (w.perform call).1)]) (w.perform call).2

/-- Sequences along a run from the start: every call is a step of those that the calls before it led to. -/
inductive SequenceRuns (stores : Nat → BackingStore) :
    List (Call × Reply) → World geometry hostOf → (Nat → List Reference) → Prop
  | start : SequenceRuns stores [] (World.start stores) fun _ => []
  | step {trace : List (Call × Reply)} {w : World geometry hostOf} {refs refs' : Nat → List Reference} {call : Call}
    (h : SequenceRuns stores trace w refs) (hstep : SequenceStep w call (w.perform call).1 refs refs') :
    SequenceRuns stores (trace ++ [(call, (w.perform call).1)]) (w.perform call).2 refs'

/-- The calls are allowed, one after the other, and get these replies. -/
def Replays (w : World geometry hostOf) : List (Call × Reply) → Prop
  | [] => True
  | (call, reply) :: rest => w.Allowed call ∧ (w.perform call).1 = reply ∧ (w.perform call).2.Replays rest

/-- The world after some calls. -/
def after (w : World geometry hostOf) (calls : List (Call × Reply)) : World geometry hostOf :=
  calls.foldl (fun w x => (w.perform x.1).2) w

theorem Runs.replay (h : Runs stores trace w) {xs : List (Call × Reply)} (hxs : w.Replays xs) :
    Runs stores (trace ++ xs) (w.after xs) := by
  induction xs generalizing trace w with
  | nil =>
    rw [List.append_nil]
    exact h
  | cons x xs ih =>
    obtain ⟨hok, hreply, hrest⟩ := hxs
    have hstep := h.step hok
    rw [hreply] at hstep
    have hreplay := ih hstep hrest
    rw [List.append_assoc] at hreplay
    exact hreplay

theorem Sound.refs_eq (hw : w.Sound entries n) (i : Nat) : w.refs i = sequences entries i := by
  unfold refs
  rw [hw.nodes_eq, Entry.map_ref_placed]
  rfl

theorem Sound.represents (hw : w.Sound entries n) : w.Represents (sequences entries) := by
  refine ⟨?_, ?_, ?_⟩
  · intro i
    have hl := hw.holds i
    refine ⟨Entry.placed none (entries i), ?_, Entry.map_ref_placed none (entries i)⟩
    rw [hl.head]
    exact hl.linked.spells
  · intro i
    have hnodup := hw.nodes_nodup i
    rw [List.Nodup, List.pairwise_map] at hnodup
    unfold sequences
    rw [List.pairwise_map]
    exact hnodup.imp Entry.same_eq_false
  · intro i j hne r hr r' hr'
    obtain ⟨e, he, rfl⟩ := List.mem_map.mp hr
    obtain ⟨e', he', rfl⟩ := List.mem_map.mp hr'
    exact Entry.same_eq_false (hw.node_address_ne hne he' he)

section Exact

variable (hg : ∀ k, (geometry k).Exact)
include hg

theorem Runs.sound (h : Runs stores trace w) :
    ∃ entries n, w.Sound entries n ∧ SequenceRuns stores trace w (sequences entries) := by
  induction h with
  | start => exact ⟨_, _, .start stores, .start⟩
  | step h hok ih =>
    obtain ⟨entries, n, hw, hrefs⟩ := ih
    obtain ⟨entries', n', -, hadvances⟩ := hw.perform hg _ hok
    exact ⟨entries', n', hadvances.sound, .step hrefs hadvances.step⟩

/-- No two nodes of a list are the same. -/
theorem Runs.refs_distinct (h : Runs stores trace w) (i : Nat) :
    (w.refs i).Pairwise fun r s => r.same s = false := by
  obtain ⟨entries, n, hw, -⟩ := h.sound hg
  rw [hw.refs_eq]
  exact hw.represents.distinct i

/-- After every run, each list is the sequence that its replies tell, and whatever call comes next is a
step of the sequences. -/
theorem Runs.represent_sequences (h : Runs stores trace w) :
    SequenceRuns stores trace w w.refs ∧ w.Represents w.refs ∧ ∀ call, w.Allowed call →
      SequenceStep w call (w.perform call).1 w.refs (w.perform call).2.refs ∧
        (w.perform call).2.Represents (w.perform call).2.refs := by
  obtain ⟨entries, n, hw, hrefs⟩ := h.sound hg
  rw [funext hw.refs_eq]
  refine ⟨hrefs, hw.represents, ?_⟩
  intro call hok
  obtain ⟨entries', n', -, hadvances⟩ := hw.perform hg call hok
  rw [funext hadvances.sound.refs_eq]
  exact ⟨hadvances.step, hadvances.sound.represents⟩

end Exact

/-- Calls on a list in an arena with room for two nodes, and the answers: a node is put in behind another one,
the first is deleted, one is put in in front of what is left, and there is no block for a third. -/
def crowding : List (Call × Reply) :=
  [(.init 0 160, .done (.ok ())),
    (.list 0 (.insertFront 7), .list (.inserted (.ok ⟨4128, 0, 7⟩))),
    (.list 0 (.insertAfter (some ⟨4128, 0, 7⟩) 9), .list (.inserted (.ok ⟨4208, 1, 9⟩))),
    (.list 0 (.delete 7), .list (.deleted (.ok ()))),
    (.list 0 (.insertBefore (some ⟨4208, 1, 9⟩) 8), .list (.inserted (.ok ⟨4128, 2, 8⟩))),
    (.list 0 (.insertAfter (some ⟨4128, 2, 8⟩) 5),
      .list (.inserted (.error (.allocationExhausted (.exhausted 40)))))]

/-- The world after these calls. -/
def crowded : World (fun _ => .standard) fun _ => 0 := (start fun _ => .zeroed (fun _ => true) 4096).after crowding

set_option maxRecDepth 4096 in
theorem crowding_replays :
    (start fun _ => .zeroed (fun _ => true) 4096 : World (fun _ => .standard) fun _ => 0).Replays crowding :=
  ⟨allowed_first 160 (by decide) (by decide), rfl, trivial, rfl, trivial, rfl, trivial, rfl, trivial, rfl,
    trivial, rfl, trivial⟩

theorem crowded_represents : Runs (fun _ => .zeroed (fun _ => true) 4096) crowding crowded ∧
    crowded.refs 0 = [⟨4128, 2, 8⟩, ⟨4208, 1, 9⟩] ∧
    SequenceRuns (fun _ => .zeroed (fun _ => true) 4096) crowding crowded crowded.refs ∧
    crowded.Represents crowded.refs ∧ ∀ call, crowded.Allowed call →
      SequenceStep crowded call (crowded.perform call).1 crowded.refs (crowded.perform call).2.refs ∧
        (crowded.perform call).2.Represents (crowded.perform call).2.refs := by
  have hruns := Runs.start.replay crowding_replays
  exact ⟨hruns, by decide +kernel, hruns.represent_sequences fun _ => Geometry.standard_exact⟩

theorem tiny_runs : ∃ trace, trace.map Prod.fst = [.init 0 256, .acquire 0 20, .list 0 (.insertFront 7)] ∧
    Runs (fun _ => .zeroed (fun _ => true) 4096) trace tiny := by
  refine ⟨_, ?_, .step (.step (.step .start (allowed_first 256 (by decide) (by decide))) trivial) trivial⟩
  rfl

end World

end ArenaHeap
