import ArenaHeap.Proofs.World.References

/-!
# Clients of a list

Any number of clients share one list. They take turns in any order, and each request is served as a whole. A client
names a node by the operation of its own that returned the reference, and it tells what it sees by the numbers of its
own nodes, in the order in which they were made. So what it asks for and what it sees can be compared between worlds.

* `Request`, `Request.call` : what a client asks of a list, and the call that it makes of what it knows;
* `Observation`, `Client.observe` : what a client sees of a reply;
* `Client` : what a client knows; `Client.hear` is what a reply adds;
* `World.refs`, `World.valuesOf` : the nodes of a list, and its values;
* `Sharing`, `World.share`, `Sharing.serve`, `World.served` : a list and its clients, and a script of requests;
* `Sharing.Roomy` : there was room for every node;
* `World.alone`, `RunsAlone` : what a client sees, and what it leaves, if it is the only one.
-/

namespace ArenaHeap

/-! ## Requests -/

/-- Where a node is put: right behind another one, or right in front of it. -/
inductive Side where
  | behind
  | inFront
deriving DecidableEq, Repr

/-- An element, and another one at its side. -/
def Side.put {α : Type} (new : α) : Side → α → List α
  | .behind, x => [x, new]
  | .inFront, x => [new, x]

/-- The call that puts a value at the side of a node. -/
def ListCall.beside (side : Side) (r? : Option Reference) (value : Int32) : ListCall :=
  match side with
  | .behind => .insertAfter r? value
  | .inFront => .insertBefore r? value

/-- What a client asks of a list. A node is named by a place among what the operations of the client returned. -/
inductive Request where
  | insertFront (value : Int32)
  | insertBeside (side : Side) (place : Nat) (value : Int32)
  | delete (value : Int32)
  | search (value : Int32)
deriving DecidableEq, Repr

namespace Request

/-- The value that a request is about. -/
def value : Request → Int32
  | insertFront value | insertBeside _ _ value | delete value | search value => value

/-- Whether a request is about the front of the list. -/
def isFront : Request → Bool
  | insertFront _ => true
  | _ => false

/-- The call that a request stands for, if these references are known. -/
def call (known : List (Option Reference)) : Request → ListCall
  | insertFront value => .insertFront value
  | insertBeside side place value => .beside side known[place]?.join value
  | delete value => .delete value
  | search value => .search value

end Request

/-! ## Clients -/

/-- What a client sees of a reply. A node that is found is told by its number among the nodes of the client. -/
inductive Observation where
  | done
  | refused (kind : FaultKind)
  | found (node? : Option Nat)
deriving DecidableEq, Repr

/-- What a client knows. -/
structure Client where
  /-- The references that it had at the start, and what each of its operations returned: a reference or none. -/
  known : List (Option Reference) := []
  /-- Its nodes, dead or alive: those that were in the list at the start, and those that it put in. -/
  nodes : List Reference := []
  seen : List Observation := []

/-- The reference that a reply tells. -/
def ListReply.reference? : ListReply → Option Reference
  | .inserted (.ok r) => some r
  | .found r? => r?
  | _ => none

namespace Client

/-- The number of a node among those of a client. -/
def number (c : Client) (r : Reference) : Nat := c.nodes.findIdx r.same

/-- What a client sees of a reply. -/
def observe (c : Client) : ListReply → Observation
  | .inserted (.error fault) | .deleted (.error fault) => .refused fault.kind
  | .found r? => .found (r?.map c.number)
  | _ => .done

/-- What a client knows after one more reply. -/
def hear (c : Client) (reply : ListReply) : Client where
  known := c.known ++ [reply.reference?]
  nodes := c.nodes ++ reply.newcomer?.toList
  seen := c.seen ++ [c.observe reply]

end Client

/-! ## Sharing a list -/

variable {geometry : Nat → Geometry} {hostOf : Nat → Nat}

namespace World

/-- The values of list `i`, in order. -/
def valuesOf (w : World geometry hostOf) (i : Nat) : List Int32 := (w.lists i).values (w.allocators (hostOf i))

/-- What list `i` answers to a call, and the world then. -/
def ask (w : World geometry hostOf) (i : Nat) (call : ListCall) : ListReply × World geometry hostOf :=
  let (reply, l, h) := (w.lists i).answer (w.host (hostOf i)) call
  (reply, w.setList i l h)

theorem perform_list_eq (w : World geometry hostOf) (i : Nat) (call : ListCall) :
    w.perform (.list i call) = (.list (w.ask i call).1, (w.ask i call).2) := rfl

theorem valuesOf_eq (w : World geometry hostOf) (i : Nat) : w.valuesOf i = (w.refs i).map Reference.value := by
  unfold valuesOf NodeList.values NodeList.range refs
  exact NodeList.slice_started none none _

end World

/-- A world in which clients share a list, and the calls since they began. -/
structure Sharing (geometry : Nat → Geometry) (hostOf : Nat → Nat) where
  world : World geometry hostOf
  calls : List (Call × Reply) := []
  clients : Nat → Client

/-- Clients begin to share list `i`. The nodes with a value that a client owns are its nodes; whether it has
references to them is said by `knows`. -/
def World.share (w : World geometry hostOf) (i : Nat) (owns : Nat → Int32 → Bool) (knows : Bool) :
    Sharing geometry hostOf where
  world := w
  clients c :=
    let nodes := (w.refs i).filter fun r => owns c r.value
    { known := if knows then nodes.map some else [], nodes }

namespace Sharing

/-- The request of a client is served. -/
def serve (i : Nat) (d : Sharing geometry hostOf) (x : Nat × Request) : Sharing geometry hostOf :=
  let client := d.clients x.1
  let call := x.2.call client.known
  let (reply, world) := d.world.ask i call
  { world
    calls := d.calls ++ [(.list i call, .list reply)]
    clients := Function.update d.clients x.1 (client.hear reply) }

/-- Nobody who asked was told that there is no room for a node. -/
def Roomy (d : Sharing geometry hostOf) (script : List (Nat × Request)) : Prop :=
  ∀ x ∈ script, .refused .allocationExhausted ∉ (d.clients x.1).seen

instance (d : Sharing geometry hostOf) (script : List (Nat × Request)) : Decidable (d.Roomy script) :=
  inferInstanceAs (Decidable (∀ x ∈ script, _ ∉ (d.clients x.1).seen))

end Sharing

/-- Clients share list `i` and ask, one after the other, for what the script says. -/
def World.served (w : World geometry hostOf) (i : Nat) (owns : Nat → Int32 → Bool) (knows : Bool)
    (script : List (Nat × Request)) : Sharing geometry hostOf :=
  script.foldl (Sharing.serve i) (w.share i owns knows)

/-- The requests of one client in a script. -/
def requestsOf (c : Nat) (script : List (Nat × Request)) : List Request :=
  (script.filter (·.1 == c)).map Prod.snd

/-- One client has list `i` to itself, and owns all values. -/
def World.alone (w : World geometry hostOf) (i : Nat) (knows : Bool) (requests : List Request) :
    Sharing geometry hostOf :=
  w.served i (fun c _ => c == 0) knows (requests.map (Prod.mk 0))

/-- There is a run of the program for a client of its own: some list of some world has the given values, the client
makes the given requests, and there is room for all nodes and a stamp for each. What the client sees and the values
that the list has then are told last. -/
inductive RunsAlone (knows : Bool) : List Int32 → List Request → List Observation → List Int32 → Prop
  | intro {geometry : Nat → Geometry} {hostOf : Nat → Nat} {stores : Nat → BackingStore}
    {history : List (Call × Reply)} {w : World geometry hostOf} {i : Nat} {requests : List Request}
    (hg : ∀ k, (geometry k).Exact) (h : World.Runs stores history w)
    (hroom : (w.alone i knows requests).Roomy (requests.map (Prod.mk 0)))
    (hcount : created (history ++ (w.alone i knows requests).calls) < 2 ^ 64) :
    RunsAlone knows (w.valuesOf i) requests ((w.alone i knows requests).clients 0).seen
      ((w.alone i knows requests).world.valuesOf i)

end ArenaHeap
