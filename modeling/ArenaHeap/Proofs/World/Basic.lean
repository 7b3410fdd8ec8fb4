import ArenaHeap.Proofs.Chains.Answers
import Mathlib.Logic.Function.Basic

/-!
# Worlds of allocators and lists

Any number of allocators, each of a geometry of its own, and any number of lists, each on an allocator
of its own. The world also knows the tokens that are still good: no token is kept twice.

* `World` : the allocators, the lists and the tokens; `World.start` has no arena yet;
* `Call`, `Reply`, `World.perform` : what can be asked of a world, and what it does then;
* `World.Allowed` : the calls that keep to the rules for tokens, lists and backing stores;
* `World.targets` : the addresses of the blocks that a call is about;
* `Reachable` : the worlds that come of allowed calls;
* `Leads` : what some kind of allowed calls makes of a world, and `Leads.holds` what they keep.
-/

namespace ArenaHeap

/-- Allocators of the given geometries, and lists on the given hosts. A list without nodes is as good as
one that is yet to be made. -/
structure World (geometry : Nat → Geometry) (hostOf : Nat → Nat) where
  allocators : ∀ k, Allocator (geometry k)
  stamp : UInt64 := 0
  unreleased : List Fault := []
  lists : Nat → NodeList := fun _ => {}
  /-- The tokens from each allocator that a user holds. -/
  held : Nat → List Token := fun _ => []
  /-- The tokens from each allocator that were given up while their blocks stayed handed out. -/
  leaked : Nat → List Token := fun _ => []

/-- What can be asked of a world. -/
inductive Call where
  | init (k : Nat) (capacity : UInt64)
  | deinit (k : Nat)
  | acquire (k : Nat) (size : UInt64)
  /-- Gives allocator `k` a token that came from `owner`. -/
  | release (k owner : Nat) (t : Token)
  | resize (k owner : Nat) (t? : Option Token) (size : UInt64)
  /-- Gives up a token, but not its block. -/
  | leak (k : Nat) (t : Token)
  | recover (k : Nat) (address : UInt64)
  | usage (k : Nat)
  /-- Writes some bytes of the block of a token from `k`. -/
  | write (k : Nat) (t : Token) (place : Nat) (bytes : List UInt8)
  | list (i : Nat) (call : ListCall)

/-- Whether a call is about a list. -/
def Call.isList : Call → Bool
  | .list .. => true
  | _ => false

/-- The allocator that is to claim an arena or to give it back. -/
def Call.arena? : Call → Option Nat
  | .init k _ | .deinit k => some k
  | _ => none

/-- What a world answers. -/
inductive Reply where
  | nothing
  | done (result : Except Fault Unit)
  | token (result : Except Fault Token)
  | resized (result : Except ResizeFault (Option Token))
  | usage (result : Except Fault Usage)
  | list (reply : ListReply)

namespace World

variable {geometry : Nat → Geometry} {hostOf : Nat → Nat}

/-- No allocator has an arena yet. -/
def start (stores : Nat → BackingStore) : World geometry hostOf where
  allocators k := ⟨stores k, none⟩

/-! ## Calls -/

/-- The world with another allocator `k`. -/
def setAllocator (w : World geometry hostOf) (k : Nat) (a : Allocator (geometry k)) : World geometry hostOf :=
  { w with allocators := Function.update w.allocators k a }

/-- The world with other tokens from allocator `k`. -/
def setTokens (w : World geometry hostOf) (k : Nat) (held leaked : List Token) : World geometry hostOf :=
  { w with held := Function.update w.held k held, leaked := Function.update w.leaked k leaked }

/-- The host of nodes on allocator `k`. -/
def host (w : World geometry hostOf) (k : Nat) : Host (geometry k) := ⟨w.allocators k, w.stamp, w.unreleased⟩

/-- The world with another list `i`, and its host as the list left it. -/
def setList (w : World geometry hostOf) (i : Nat) (l : NodeList) (h : Host (geometry (hostOf i))) :
    World geometry hostOf :=
  { w.setAllocator (hostOf i) h.allocator with
    stamp := h.stamp
    unreleased := h.unreleased
    lists := Function.update w.lists i l }

/-- What a world does. A token that is refused and not handed back is lost, but its block is not. -/
def perform (w : World geometry hostOf) : Call → Reply × World geometry hostOf
  | .init k capacity =>
    let (result, a) := (w.allocators k).init capacity
    (.done result, w.setAllocator k a)
  | .deinit k => (.nothing, (w.setAllocator k (w.allocators k).deinit).setTokens k [] [])
  | .acquire k size =>
    match (w.allocators k).acquire size with
    | (.ok t, a) => (.token (.ok t), (w.setAllocator k a).setTokens k (t :: w.held k) (w.leaked k))
    | (.error fault, a) => (.token (.error fault), w.setAllocator k a)
  | .release k owner t =>
    match (w.allocators k).release t with
    | (.ok (), a) =>
      (.done (.ok ()), (w.setAllocator k a).setTokens owner ((w.held owner).erase t) (w.leaked owner))
    | (.error fault, a) =>
      (.done (.error fault),
        (w.setAllocator k a).setTokens owner ((w.held owner).erase t) (t :: w.leaked owner))
  | .resize k owner t? size =>
    let others := t?.elim (w.held owner) (w.held owner).erase
    match (w.allocators k).resize t? size with
    | (.ok t'?, a) =>
      (.resized (.ok t'?), (w.setAllocator k a).setTokens owner (t'?.toList ++ others) (w.leaked owner))
    | (.error refused, a) =>
      (.resized (.error refused), (w.setAllocator k a).setTokens owner (refused.returned.toList ++ others)
        (if refused.returned.isSome then w.leaked owner else t?.toList ++ w.leaked owner))
  | .leak k t => (.nothing, w.setTokens k ((w.held k).erase t) (t :: w.leaked k))
  | .recover k address =>
    match (w.allocators k).recover address with
    | .ok t =>
      (.token (.ok t),
        if t ∈ w.leaked k then w.setTokens k (t :: w.held k) ((w.leaked k).erase t) else w)
    | .error fault => (.token (.error fault), w)
  | .usage k => (.usage (w.allocators k).usage, w)
  | .write k t place bytes =>
    (.nothing, w.setAllocator k ((w.allocators k).write (t.address + .ofNat place) bytes))
  | .list i call =>
    let (reply, l, h) := (w.lists i).answer (w.host (hostOf i)) call
    (.list reply, w.setList i l h)

/-! ## Rules -/

/-- The addresses of one arena end before those of the other begin. -/
def Apart (x y : UInt64 × Layout) : Prop :=
  x.1.toNat + x.2.size.toNat ≤ y.1.toNat ∨ y.1.toNat + y.2.size.toNat ≤ x.1.toNat

/-- What a backing store promises of an arena that it grants: it starts on the grid, it ends before the
end of the address space, and it overlaps no arena in use. -/
def Vacant (w : World geometry hostOf) (k : Nat) (arena : Arena) : Prop :=
  arena.Placed (geometry k) ∧ ∀ j, ∀ x ∈ (w.allocators j).extent, Apart (arena.base, arena.layout) x

/-- The call keeps to the rules: only tokens that the caller holds are used, only bytes of their blocks
are written, no list outlives the arena of its nodes, and no backing store breaks its promise. -/
def Allowed (w : World geometry hostOf) : Call → Prop
  | .init k capacity => (w.allocators k).space = none → ∀ arena,
    (Arena.claim (w.allocators k).store ((geometry k).arenaSize capacity) (geometry k).granularity).1 =
      some arena → w.Vacant k arena
  | .deinit k => ∀ i, hostOf i = k → (w.lists i).isEmpty
  | .release _ owner t => t ∈ w.held owner
  | .resize k owner none _ => owner = k
  | .resize _ owner (some t) _ => t ∈ w.held owner
  | .leak k t => t ∈ w.held k
  | .write k t place bytes => t ∈ w.held k ++ w.leaked k ∧ place + bytes.length ≤ t.size.toNat
  | _ => True

/-- The addresses of the blocks that a call is about. -/
def targets (w : World geometry hostOf) : Call → List UInt64
  | .release _ _ t => [t.address]
  | .resize _ _ t? _ => t?.toList.map Token.address
  | .write _ t _ _ => [t.address]
  | .list i call => call.targets ((w.lists i).nodes (w.allocators (hostOf i)))
  | _ => []

/-- The worlds that come of allowed calls. -/
inductive Reachable (stores : Nat → BackingStore) : World geometry hostOf → Prop
  | start : Reachable stores (start stores)
  | step {w : World geometry hostOf} {call : Call} (h : Reachable stores w) (hok : w.Allowed call) :
    Reachable stores (w.perform call).2

/-- The second world comes of the first by allowed calls of one kind. -/
inductive Leads (kind : Call → Prop) (w : World geometry hostOf) : World geometry hostOf → Prop
  | refl : Leads kind w w
  | step {w' : World geometry hostOf} {call : Call} (h : Leads kind w w') (hok : w'.Allowed call)
    (hkind : kind call) : Leads kind w (w'.perform call).2

variable {stores : Nat → BackingStore} {kind : Call → Prop} {w w' : World geometry hostOf}

theorem Reachable.leads (hw : Reachable stores w) (h : Leads kind w w') : Reachable stores w' := by
  induction h with
  | refl => exact hw
  | step h hok hkind ih => exact .step ih hok

/-- What calls of one kind keep in reachable worlds holds after any number of them. -/
theorem Leads.holds {Inv : World geometry hostOf → Prop} (hw : Reachable stores w) (h : Leads kind w w')
    (hstart : Inv w) (hstep : ∀ w call, Reachable stores w → Inv w → w.Allowed call → kind call →
      Inv (w.perform call).2) : Inv w' := by
  induction h with
  | refl => exact hstart
  | step h hok hkind ih => exact hstep _ _ (hw.leads h) ih hok hkind

end World

end ArenaHeap
