import ArenaHeap.Proofs.Checked.Lists
import ArenaHeap.Proofs.World.Steps

/-!
# The arithmetic of a world

* `World.Unwrapped` : every call comes out of checked arithmetic as it is;
* `Reachable.never_wraps` : so it does in every reachable world.
-/

namespace ArenaHeap.World

variable {geometry : Nat → Geometry} {hostOf : Nat → Nat} {stores : Nat → BackingStore}
  {w : World geometry hostOf}

/-- With arithmetic that refuses to exceed the capacity of an arena and to fall below zero, all constants and all calls
come out as they are: none of their sums and differences wraps. Tokens are those that are held, of this allocator or of
another one; sizes, capacities, addresses and references are any. -/
structure Unwrapped (w : World geometry hostOf) : Prop where
  /-- Such sums and differences are exact. -/
  sums : ∀ limit a b c, Word.sum? limit a b = some c ↔ c.toNat = a.toNat + b.toNat ∧ c ≤ limit
  differences : ∀ a b c, Word.difference? a b = some c ↔ c.toNat + b.toNat = a.toNat
  constants : ∀ k, (geometry k).Unwrapped
  init : ∀ k capacity, (w.allocators k).init? capacity = some ((w.allocators k).init capacity)
  acquire : ∀ k size, (w.allocators k).acquire? size = some ((w.allocators k).acquire size)
  release : ∀ k owner, ∀ t ∈ w.held owner, (w.allocators k).release? t = some ((w.allocators k).release t)
  resize : ∀ k owner t? size, (∀ t ∈ t?, t ∈ w.held owner) →
    (w.allocators k).resize? t? size = some ((w.allocators k).resize t? size)
  recover : ∀ k address, (w.allocators k).recover? address = some ((w.allocators k).recover address)
  usage : ∀ k, (w.allocators k).usage? = some (w.allocators k).usage
  list : ∀ i call, (w.lists i).answer? (w.host (hostOf i)) call = some ((w.lists i).answer (w.host (hostOf i)) call)
  capacity : ∀ k s, (w.allocators k).space = some s → s.capacity.toNat ≤ 2 ^ 63 - 1
  /-- A request that an arena could hold is not refused because its size cannot be rounded. -/
  aligned : ∀ k s size, (w.allocators k).space = some s → size ≠ 0 → size ≤ s.capacity →
    ∃ aligned, (geometry k).alignedSize size s.capacity = .ok aligned ∧ aligned ≤ s.capacity

/-- In every reachable world no arithmetic wraps. -/
theorem Reachable.never_wraps (hg : ∀ k, (geometry k).Exact) (h : Reachable stores w) : w.Unwrapped := by
  obtain ⟨entries, n, hw⟩ := h.sound hg
  have hknown {k owner : Nat} {t : Token} (ht : t ∈ w.held owner) :
      t.address ∈ (w.loans entries n k).map Token.address ∨ (w.allocators k).Outside t.address :=
    (hw.known ht k).imp_left List.mem_map_of_mem
  exact {
    sums := fun _ _ _ _ => Word.sum?_eq_some_iff
    differences := fun _ _ _ => Word.difference?_eq_some_iff
    constants := fun k => (hg k).unwrapped
    init := fun k => Allocator.init?_eq (hg k) _
    acquire := fun k => (hw.lends k).acquire?_eq (hg k)
    release := fun k owner t ht => (hw.lends k).release?_eq (hknown ht)
    resize := fun k owner t? size ht => (hw.lends k).resize?_eq (hg k) (fun t hmem => hknown (ht t hmem)) size
    recover := fun k => (hw.lends k).recover?_eq
    usage := fun k => (hw.lends k).usage?_eq
    list := fun i => (hw.holds i).answer?_eq (h := w.host (hostOf i)) (hg _) (hw.lends_list i)
    capacity := fun k s _ => Nat.le_pred_of_lt s.capacity_lt
    aligned := fun k s size hspace hsize hle => by
      obtain ⟨ts, hs⟩ := (hw.lends k).sound hspace
      exact Geometry.alignedSize_le hsize hle s.capacity_lt hs.grid_dvd_capacity }

theorem tiny_never_wraps : tiny.Unwrapped := tiny_reachable.never_wraps fun _ => Geometry.standard_exact

end ArenaHeap.World
