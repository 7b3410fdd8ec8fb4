import ArenaHeap.Proofs.Loops.Lists

/-!
# The loops of a world

* `World.LoopsEnd` : every loop of every allocator and of every list ends, also in the middle of a call;
* `Reachable.loops_end` : so it is in every reachable world.
-/

namespace ArenaHeap.World

variable {geometry : Nat → Geometry} {hostOf : Nat → Nat} {stores : Nat → BackingStore}
  {w : World geometry hostOf}

/-- The loops over blocks and over nodes end, whatever world they start in. None visits anything twice, and none visits
more than an arena has room for blocks. Nor does any loop in the middle of a call, when memory is not what it was in the
beginning. -/
structure LoopsEnd (w : World geometry hostOf) : Prop where
  allocators : ∀ k, (w.allocators k).LoopsEnd
  lists : ∀ i, (w.lists i).LoopsEnd (w.allocators (hostOf i))
  edits : ∀ i, (w.lists i).EditsEnd (w.host (hostOf i))
  bound : ∀ k s, (w.allocators k).space = some s → NodeList.nodeBound (w.allocators k) = s.blockBound ∧
    s.blockBound = s.capacity.toNat / ((geometry k).headerSize.toNat + (geometry k).granularity.value.toNat)

/-- In every reachable world every loop ends. -/
theorem Reachable.loops_end (hg : ∀ k, (geometry k).Exact) (h : Reachable stores w) : w.LoopsEnd := by
  obtain ⟨entries, n, hw⟩ := h.sound hg
  refine ⟨fun k => (hw.lends k).loopsEnd (hg k), fun i => (hw.holds i).loopsEnd (hw.lends_list i), fun i => ?_,
    fun k s hs => ⟨?_, rfl⟩⟩
  · exact NodeList.Holds.editsEnd (h := w.host (hostOf i)) (hg _) (hw.holds i) (hw.lends_list i)
  · rw [NodeList.nodeBound, hs]
    rfl

theorem tiny_loops_end : tiny.LoopsEnd := tiny_reachable.loops_end fun _ => Geometry.standard_exact

end ArenaHeap.World
