import ArenaHeap.Proofs.World.BlockStructure

/-!
# Blocks do not disturb each other

* `Block.Uses`, `Block.Heads` : the usable cells of a block, and those of its header;
* `BlockSpace.Isolated` : the cells of blocks are in the arena, and no two parts of blocks share one;
* `World.nodeLoans` : the tokens of the nodes that lists find in memory;
* `World.Isolates` : an arena is isolated, its blocks are those of tokens and nodes, and calls leave alone
  what they are not about;
* `Reachable.isolates` : every reachable world isolates its blocks.
-/

namespace ArenaHeap

open Tiling

/-- A usable cell of the block. -/
def Block.Uses (g : Geometry) (b : Block) (i : Nat) : Prop :=
  b.offset.toNat + g.front ≤ i ∧ i < b.offset.toNat + g.front + b.size.toNat

/-- A cell of the header of the block, or of its padding. -/
def Block.Heads (g : Geometry) (b : Block) (i : Nat) : Prop :=
  b.offset.toNat ≤ i ∧ i < b.offset.toNat + g.front

namespace BlockSpace

variable {g : Geometry} {s s' : BlockSpace g} {ts : List Tile} {b : Block}

/-- Usable cells lie in the arena, no two blocks share one, and none is a cell of a header. -/
structure Isolated (s : BlockSpace g) : Prop where
  inside : ∀ b ∈ s.blocks, ∀ i, b.Uses g i → i < s.capacity.toNat
  disjoint : s.blocks.Pairwise fun b c => ∀ i, ¬ (b.Uses g i ∧ c.Uses g i)
  headers : ∀ b ∈ s.blocks, ∀ c ∈ s.blocks, ∀ i, ¬ (b.Uses g i ∧ c.Heads g i)

theorem Sound.isolated (hs : s.Sound ts) : s.Isolated := by
  have hapart := hs.pairwise
  refine ⟨?_, hapart.imp ?_, ?_⟩
  · intro b hb i hi
    have hle := (hs.bounds_block hb).1
    obtain ⟨-, hhi⟩ := hi
    omega
  · intro b c hle i hi
    obtain ⟨⟨-, hhi⟩, hlo, -⟩ := hi
    omega
  · -- A block and itself, a block and one behind it, a block and one in front of it.
    refine List.Pairwise.forall_of_forall_of_flip ?_ (hapart.imp ?_) (hapart.imp ?_)
    · intro b hb i hi
      obtain ⟨⟨hlo, -⟩, -, hhi⟩ := hi
      omega
    · intro b c hle i hi
      obtain ⟨⟨-, hhi⟩, hlo, -⟩ := hi
      omega
    · intro b c hle i hi
      obtain ⟨⟨hlo, -⟩, -, hhi⟩ := hi
      omega

theorem Sound.loan_inj (hs : s.Sound ts) {ts' : List Tile} (hs' : s'.Sound ts')
    (hbase : s'.arena.base = s.arena.base) {c : Block} (hb : b ∈ s.allocated) (hc : c ∈ s'.allocated)
    (he : s'.loan c = s.loan b) : c = b := by
  rw [hs.allocated_eq, List.mem_map] at hb
  rw [hs'.allocated_eq, List.mem_map] at hc
  obtain ⟨p, -, rfl⟩ := hb
  obtain ⟨q, -, rfl⟩ := hc
  obtain ⟨haddress, hsize⟩ := Token.mk.inj he
  have hsum := haddress
  rw [address_eq, address_eq, hbase, UInt64.add_right_inj, UInt64.ofNat_add, UInt64.ofNat_add,
    UInt64.add_left_inj] at hsum
  have hword : UInt64.ofNat q.2 = .ofNat p.2 := hsize
  rw [hsum, hword]

theorem Sound.get_of_read (hs : s.Sound ts) (hbase : s'.arena.base = s.arena.base) (hb : b ∈ s.allocated)
    (hread : s'.arena.read (s.loan b).address b.size.toNat = s.arena.read (s.loan b).address b.size.toNat)
    {i : Nat} (hi : b.Uses g i) : s'.arena.memory.get i = s.arena.memory.get i := by
  rw [hs.allocated_eq, List.mem_map] at hb
  obtain ⟨p, hp, rfl⟩ := hb
  have hle := (hs.bounds hp).1
  have hcap := s.capacity_lt
  have ho : (UInt64.ofNat p.1).toNat = p.1 := Word.toNat_ofNat (by omega)
  have hposition : s.arena.position (s.address (.ofNat p.1)) = p.1 + g.front := hs.position hp
  have hposition' : s'.arena.position (s.address (.ofNat p.1)) = p.1 + g.front := by
    unfold Arena.position
    rw [hbase, ← Arena.position, hposition]
  obtain ⟨hlo, hhi⟩ := hi
  simp only [ho] at hlo hhi
  simp only [Arena.read, loan, hposition, hposition'] at hread
  have hcell := congrArg (fun bs : List UInt8 => bs[i - (p.1 + g.front)]?) hread
  rw [Memory.getElem?_bytes _ _ _ _ (by omega), Memory.getElem?_bytes _ _ _ _ (by omega),
    Nat.add_sub_cancel' hlo] at hcell
  exact Option.some.inj hcell

/-- Bytes that are written to a block that is handed out change nothing but its usable cells. -/
theorem Sound.write_block (hs : s.Sound ts) (hb : b ∈ s.allocated) {place : Nat} {bytes : List UInt8}
    (hfit : place + bytes.length ≤ b.size.toNat) :
    ∃ s', { s with arena := s.arena.write (s.address b.offset + .ofNat place) bytes } = s' ∧
      s'.blocks = s.blocks ∧ s'.freeChain = s.freeChain ∧ s'.head = s.head ∧ s.Frame s' (b.Uses g) := by
  rw [hs.allocated_eq, List.mem_map] at hb
  obtain ⟨p, hp, rfl⟩ := hb
  have hle := (hs.bounds hp).1
  have hcap := s.capacity_lt
  have ho : (UInt64.ofNat p.1).toNat = p.1 := Word.toNat_ofNat (by omega)
  have hn : (UInt64.ofNat p.2).toNat = p.2 := Word.toNat_ofNat (by omega)
  have hsize : Block.size ⟨.ofNat p.1, .allocated (.ofNat p.2)⟩ = .ofNat p.2 := rfl
  rw [hsize, hn] at hfit
  obtain ⟨hs', hf⟩ := hs.write_bytes hp hfit
  refine ⟨_, rfl, ?_, ?_, rfl, hf.mono ?_⟩
  · rw [hs.shows.blocks_eq hs.proper]
    exact hs'.shows.blocks_eq hs'.proper
  · rw [hs.shows.freeChain_eq hs.proper]
    exact hs'.shows.freeChain_eq hs'.proper
  · intro i hi
    unfold Block.Uses
    rw [hsize, ho, hn]
    exact hi

end BlockSpace

/-! ## Worlds -/

/-- The token that the node says that it lives in. -/
def Placed.token (p : Placed) : Token := ⟨p.address, p.node.size⟩

theorem Entry.map_token_placed (link : Option UInt64) (es : List Entry) :
    (placed link es).map Placed.token = es.map Entry.token := by
  induction es with
  | nil => rfl
  | cons e es ih => rw [placed, List.map_cons, ih, List.map_cons, withLink, Placed.token, node]

namespace World

variable {geometry : Nat → Geometry} {hostOf : Nat → Nat} {w : World geometry hostOf}
  {entries : Nat → List Entry} {k n : Nat} {s : BlockSpace (geometry k)} {b : Block}

/-- The tokens of the nodes on allocator `k`, as the first `n` lists find them in memory. -/
def nodeLoans (w : World geometry hostOf) (n k : Nat) : List Token :=
  (List.range n).flatMap fun i =>
    if hostOf i = k then ((w.lists i).nodes (w.allocators (hostOf i))).map Placed.token else []

/-- The blocks of an arena do not disturb each other. Those that are handed out are the blocks of tokens
and of nodes. A call keeps the blocks that it is not about and their bytes, and bytes that are written to
a block change no header. -/
structure Isolates (w : World geometry hostOf) (k : Nat) (s : BlockSpace (geometry k)) : Prop where
  isolated : s.Isolated
  owners : ∃ n, (∀ i, n ≤ i → (w.lists i).isEmpty = true) ∧
    (w.held k ++ w.leaked k ++ w.nodeLoans n k).Perm (s.allocated.map s.loan)
  keeps : ∀ call, w.Allowed call → call ≠ .deinit k →
    ∃ s', ((w.perform call).2.allocators k).space = some s' ∧ s'.arena.base = s.arena.base ∧
      s'.capacity = s.capacity ∧ ∀ b ∈ s.allocated, s.address b.offset ∉ w.targets call →
        b ∈ s'.allocated ∧
          ∀ i, b.Uses (geometry k) i → s'.arena.memory.get i = s.arena.memory.get i
  writes : ∀ b ∈ s.allocated, ∀ place bytes, place + bytes.length ≤ b.size.toNat →
    ∃ s', ((w.allocators k).write (s.address b.offset + .ofNat place) bytes).space = some s' ∧
      s'.blocks = s.blocks ∧ s'.freeChain = s.freeChain ∧ s'.head = s.head ∧
        ∀ c ∈ s.blocks, ∀ i, c.Heads (geometry k) i → s'.arena.memory.get i = s.arena.memory.get i

theorem Sound.nodeLoans_eq (hw : w.Sound entries n) (k : Nat) :
    w.nodeLoans n k = nodeTokens hostOf entries n k := by
  apply List.flatMap_congr
  intro i _
  rw [hw.nodes_eq, Entry.map_token_placed]

section Exact

variable (hg : ∀ k, (geometry k).Exact)
include hg

theorem Sound.keeps_block (hw : w.Sound entries n) (hs : (w.allocators k).space = some s) {call : Call}
    (hok : w.Allowed call) (hcall : call ≠ .deinit k) :
    ∃ s', ((w.perform call).2.allocators k).space = some s' ∧ s'.arena.base = s.arena.base ∧
      s'.capacity = s.capacity ∧ ∀ b ∈ s.allocated, s.address b.offset ∉ w.targets call →
        b ∈ s'.allocated ∧
          ∀ i, b.Uses (geometry k) i → s'.arena.memory.get i = s.arena.memory.get i := by
  obtain ⟨entries', n', hn, hadvances⟩ := hw.perform hg call hok
  have hextent : (s.arena.base, s.arena.layout) ∈ (w.allocators k).extent := by
    unfold Allocator.extent
    rw [hs]
    rfl
  obtain ⟨s', hs', hsame⟩ := Option.map_eq_some_iff.mp (hadvances.arenas k hcall _ hextent)
  obtain ⟨hbase, hlayout⟩ := Prod.mk.inj hsame
  refine ⟨s', hs', hbase, congrArg Layout.size hlayout, ?_⟩
  intro b hb hnot
  obtain ⟨ts, hsound⟩ := (hw.lends k).sound hs
  obtain ⟨ts', hsound'⟩ := (hadvances.sound.lends k).sound hs'
  have hlent : s.loan b ∈ w.loans entries n' k :=
    (((hw.mono hn).lends k).allocated hs).mem_iff.mpr (List.mem_map_of_mem hb)
  have hkeeps := hadvances.keeps k hcall _ hlent hnot
  obtain ⟨c, hc, hloan⟩ :=
    List.mem_map.mp (((hadvances.sound.lends k).allocated hs').mem_iff.mp hkeeps.lent)
  obtain rfl := hsound.loan_inj hsound' hbase hb hc hloan
  refine ⟨hc, fun i hi => hsound.get_of_read hbase hb ?_ hi⟩
  have hread := hkeeps.bytes c.size.toNat (Nat.le_refl _)
  simp only [Allocator.read, hs, hs'] at hread
  exact hread

/-- Every reachable world isolates its blocks. -/
theorem Reachable.isolates {stores : Nat → BackingStore} (h : Reachable stores w)
    (hs : (w.allocators k).space = some s) : w.Isolates k s := by
  obtain ⟨entries, n, hw⟩ := h.sound hg
  obtain ⟨ts, hsound⟩ := (hw.lends k).sound hs
  have hisolated := hsound.isolated
  refine ⟨hisolated, ⟨n, ?_, ?_⟩, fun call hok hcall => hw.keeps_block hg hs hok hcall, ?_⟩
  · intro i hi
    rw [NodeList.isEmpty_eq (hw.holds i), hw.bounded i hi]
    rfl
  · rw [hw.nodeLoans_eq]
    exact (hw.lends k).allocated hs
  · intro b hb place bytes hfit
    obtain ⟨s', hs', hblocks, hchain, hhead, hframe⟩ := hsound.write_block hb hfit
    refine ⟨s', ?_, hblocks, hchain, hhead, fun c hc i hi => hframe.get i ?_⟩
    · simp only [Allocator.write, hs, hs']
    · intro hu
      exact hisolated.headers b (List.mem_of_mem_filter hb) c hc i ⟨hu, hi⟩

end Exact

theorem tiny_isolates : ∃ s, (tiny.allocators 0).space = some s ∧ tiny.Isolates 0 s := by
  have hready : (tiny.allocators 0).space.isSome = true := by decide +kernel
  obtain ⟨s, hs⟩ := Option.isSome_iff_exists.mp hready
  exact ⟨s, hs, tiny_reachable.isolates (fun _ => Geometry.standard_exact) hs⟩

end World

end ArenaHeap
