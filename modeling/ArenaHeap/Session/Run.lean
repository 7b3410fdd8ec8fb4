import ArenaHeap.Session.Basic

/-!
# Running the steps of a session

* `onAllocator`, `onToken`, `onList` : what an action does to an allocator, a token, a list;
* `Session.step` : one step; `Session.run` : a script.
-/

namespace ArenaHeap

namespace Session

variable {g : Geometry}

/-! ## Tokens -/

/-- Keeps a token of allocator `k` in a slot. Nothing is known of its bytes. -/
def keepToken (s : Session g) (k : Nat) (slot : Slot) (token : Token) : Outcome × Session g :=
  (.token (distance k token.address) token.size,
    { s with tokens := s.tokens.insert slot ⟨token, k, 0⟩ })

/-- Gives the block of the token in a slot back to allocator `k`; the slot is empty then. -/
def releaseToken (s : Session g) (k : Nat) (slot : Slot) (a : Allocator g) : Outcome × Session g :=
  match s.tokens[slot]? with
  | none => (.noToken, s)
  | some held =>
    let s := { s with tokens := s.tokens.erase slot }
    match a.release held.token with
    | (.ok (), a) => (.done, s.setAllocator k a)
    | (.error fault, a) => (.fault (fault.report (base held.owner)), s.setAllocator k a)

/-- Resizes the block of the token in a slot, if there is one. -/
def resizeToken (s : Session g) (k : Nat) (slot : Slot) (size : UInt64) (a : Allocator g) :
    Outcome × Session g :=
  let held? := s.tokens[slot]?
  let s := { s with tokens := s.tokens.erase slot }
  match a.resize (held?.map Held.token) size with
  | (.ok none, a) => (.nothing, s.setAllocator k a)
  | (.ok (some token), a) =>
    let held : Held := ⟨token, k, (held?.map Held.defined).getD 0⟩
    (.token (distance k token.address) token.size,
      { s.setAllocator k a with tokens := s.tokens.insert slot held })
  | (.error refused, a) =>
    let s := s.setAllocator k a
    let owner := (held?.map Held.owner).getD k
    let outcome := .resizeFault (refused.fault.report (base owner)) refused.message
      refused.returned.isSome
    match held?, refused.returned with
    | some held, some token =>
      (outcome, { s with tokens := s.tokens.insert slot { held with token } })
    | _, _ => (outcome, s)

/-- What is found on every grain of an arena. -/
def findings (k : Nat) (a : Allocator g) : List Finding :=
  match a.space with
  | none => []
  | some space =>
    let blocks := space.blocks
    let grain := g.granularity.value
    (List.range (space.capacity.toNat / grain.toNat)).filterMap fun i =>
      let address := space.arena.addressOf (UInt64.ofNat i * grain)
      match space.headerOffset address >>= BlockSpace.judge blocks address with
      | .ok offset => some ⟨distance k address, some (space.block offset).size⟩
      | .error (.doubleFree _) => some ⟨distance k address, none⟩
      | .error _ => none

/-- The debug text of a token. -/
def describe (distance : Int) (size : UInt64) : String :=
  let sign := if distance < 0 then "-" else ""
  "Allocation \x7b pointer: " ++ sign ++ String.ofList (Nat.toDigits 10 distance.natAbs)
    ++ ", size: " ++ Fault.decimal size ++ " \x7d"

/-! ## References -/

/-- The reference in an optional slot. -/
def referenceIn (s : Session g) (slot : Option Slot) : Option Reference :=
  slot.bind fun slot => s.references[slot]?

/-- Tells a node, and keeps its reference in a slot. -/
def tellNode (k : Nat) (target : Slot) (r : Reference) (s : Session g) : Outcome × Session g :=
  let (stamp, s) := s.tellStamp r.stamp
  (.node r.value stamp (distance k r.address),
    { s with references := s.references.insert target r })

/-- Tells the result of an insertion. -/
def tellInsertion (k : Nat) (target : Slot) :
    Except ListFault Reference → Session g → Outcome × Session g
  | .ok r, s => tellNode k target r s
  | .error fault, s => (.listFault fault, s)

/-- Tells the result of a deletion. -/
def tellDeletion : Except ListFault Unit → Session g → Outcome × Session g
  | .ok (), s => (.done, s)
  | .error fault, s => (.listFault fault, s)

/-! ## Lists -/

/-- The session after an edit of the list in a slot, told with the text of the list and the
occupation of its allocator. -/
def editList {α : Type} (s : Session g) (slot : Slot) (hosted : Hosted)
    (tell : α → Session g → Outcome × Session g) :
    α × NodeList × Host g → Answer × Session g
  | (result, list, host) =>
    let s := s.setHost hosted.host host
    let s := { s with lists := s.lists.insert slot { hosted with list } }
    let (outcome, s) := tell result s
    (.outcome outcome (some (list.display host.allocator)) (some (s.usageOf hosted.host)), s)

/-! ## Actions -/

/-- What an action does to allocator `k`, which is `a`. -/
def onAllocator (s : Session g) (k origin : Nat) (a : Allocator g) :
    AllocatorAction → Outcome × Session g
  | .init capacity =>
    match a.init capacity with
    | (.ok (), a) => (.done, (s.setAllocator k a).forgetTokensOf k)
    | (.error fault, a) => (.fault (fault.report (base k)), s.setAllocator k a)
  | .deinit => (.done, (s.dropListsOf k).retire k)
  | .info => (.info a.isInitialized a.capacity a.store.claims a.store.releases, s)
  | .usage =>
    match a.usage with
    | .ok usage => (.accounted usage.accounted, s)
    | .error fault => (.fault (fault.report (base k)), s)
  | .acquire slot size =>
    match a.acquire size with
    | (.ok token, a) => (s.setAllocator k a).keepToken k slot token
    | (.error fault, a) => (.fault (fault.report (base k)), s.setAllocator k a)
  | .release slot => s.releaseToken k slot a
  | .resize slot size => s.resizeToken k slot size a
  | .recover slot distance =>
    match a.recover (addressFrom origin k distance) with
    | .ok token => s.keepToken k slot token
    | .error fault => (.fault (fault.reportAt distance), s)
  | .duplicate slot target =>
    match s.tokens[slot]? with
    | none => (.noToken, s)
    | some held =>
      match a.recover held.token.address with
      | .ok token => s.keepToken k target token
      | .error fault => (.fault (fault.report (base held.owner)), s)
  | .survey => (.findings (findings k a), s)
  | .listNew slot =>
    let s := s.dropList slot
    (.done, { s with lists := s.lists.insert slot ⟨⟨none⟩, k⟩ })

/-- What an action does to the token in a slot. -/
def onToken (s : Session g) (slot : Slot) (held : Held) : TokenAction → Outcome × Session g
  | .forget =>
    (.distance (distance held.owner held.token.address), { s with tokens := s.tokens.erase slot })
  | .describe =>
    let offset := distance held.owner held.token.address
    (.described offset held.token.size (describe offset held.token.size), s)
  | .fill length seed =>
    let n := (min length held.token.size).toNat
    let held' := { held with defined := max held.defined n }
    (.count n, { s.writeToken held 0 (ramp n seed) with tokens := s.tokens.insert slot held' })
  | .write place words =>
    let bytes := (words.flatMap (Word.toBytes 8)).take (held.token.size.toNat - place.toNat)
    let stop := place.toNat + bytes.length
    let held' :=
      if place.toNat ≤ held.defined then { held with defined := max held.defined stop } else held
    (.count bytes.length,
      { s.writeToken held place.toNat bytes with tokens := s.tokens.insert slot held' })
  | .read length =>
    (.bytes (s.readToken held (min (min length held.token.size).toNat held.defined)), s)

/-- What an action does to the list in a slot, whose nodes are in the arena of `a`. -/
def onList (s : Session g) (slot : Slot) (hosted : Hosted) (a : Allocator g) (value : Int32) :
    ListAction → Answer × Session g
  | .drop =>
    let s := s.dropList slot
    (.outcome .done none (some (s.usageOf hosted.host)), s)
  | .insertFront target =>
    s.editList slot hosted (tellInsertion hosted.host target)
      (hosted.list.insertFront (s.hostOf a) value)
  | .insertAfter reference target =>
    s.editList slot hosted (tellInsertion hosted.host target)
      (hosted.list.insertAfter (s.hostOf a) (s.referenceIn reference) value)
  | .insertBefore reference target =>
    s.editList slot hosted (tellInsertion hosted.host target)
      (hosted.list.insertBefore (s.hostOf a) (s.referenceIn reference) value)
  | .delete => s.editList slot hosted tellDeletion (hosted.list.delete (s.hostOf a) value)
  | .clear =>
    s.editList slot hosted tellDeletion (.ok (), hosted.list.clear (s.hostOf a))
  | .search target =>
    match hosted.list.search a value with
    | none => (.outcome .nothing, { s with references := s.references.erase target })
    | some r =>
      let (outcome, s) := tellNode hosted.host target r s
      (.outcome outcome, s)
  | .isEmpty => (.outcome (.flag hosted.list.isEmpty), s)
  | .count => (.outcome (.count (hosted.list.count a)), s)
  | .values => (.outcome (.values (hosted.list.values a)), s)
  | .display => (.outcome (.text (hosted.list.display a)), s)
  | .debug => (.outcome (.text (hosted.list.debug a)), s)
  | .range start stop =>
    let start := s.referenceIn start
    let stop := s.referenceIn stop
    (.outcome (.range (hosted.list.range a start stop) (hosted.list.displayRange a start stop)), s)
  | .unknown => (.refused .unknownAction, s)

/-! ## Steps -/

/-- What an action does, which is about allocator `k`. The slot of a list is looked at before the
value that comes with it. -/
def perform (s : Session g) (k origin : Nat) (a : Allocator g) : Action → Answer × Session g
  | .allocator action =>
    let (outcome, s) := s.onAllocator k origin a action
    (.outcome outcome none (some (s.usageOf k)), s)
  | .token slot action =>
    match s.tokens[slot]? with
    | none => (.outcome .noToken, s)
    | some held =>
      let (outcome, s) := s.onToken slot held action
      (.outcome outcome, s)
  | .list slot value action =>
    match s.lists[slot]? with
    | none => (.refused .noList, s)
    | some hosted =>
      match s.allocators[hosted.host]? with
      | none => (.refused .noList, s)
      | some a =>
        if Int32.minValue.toInt ≤ value ∧ value ≤ Int32.maxValue.toInt then
          s.onList slot hosted a (Int32.ofInt value) action
        else (.refused .valueOutOfRange, s)
  | .reference slot =>
    match s.references[slot]? with
    | none => (.outcome .nothing, s)
    | some r =>
      let (stamp, s) := s.tellStamp r.stamp
      (.outcome (.named r.value stamp), s)
  | .same slot other =>
    (.outcome (.flag (Reference.same? s.references[slot]? s.references[other]?)), s)

/-- One step of a session. Both of its allocators have to be there, whatever its action is. -/
def step (s : Session g) (step : Step) : Answer × Session g :=
  match s.allocators[step.allocator]?, s.allocators[step.origin]? with
  | some a, some _ => s.perform step.allocator step.origin a step.action
  | _, _ => (.refused .noAllocator, s)

/-- The answers to a script, and the session after it. -/
def run (s : Session g) : List Step → List Answer × Session g
  | [] => ([], s)
  | first :: rest =>
    let (answer, s) := s.step first
    let (answers, s) := s.run rest
    (answer :: answers, s)

end Session

end ArenaHeap
