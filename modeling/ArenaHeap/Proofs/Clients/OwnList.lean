import ArenaHeap.Proofs.Clients.Basic

/-!
# A list of one's own

What a client sees of a shared list is what it would see of a plain list that holds only its own nodes. That list
knows no addresses and no stamps: nodes are numbered as they are made.

* `ListStep.beside_cases` and its like : what single calls do, with edits as splices;
* `OwnList`, `OwnList.step` : the plain list of a client, and what a request makes of it;
* `Client.view` : what a client has of a shared list;
* `Client.Tracks` : a client knows its own nodes from all others;
* `Client.Tracks.view_hear` : a request of the client does to its view what it does to a plain list;
* `ListStep.filter_other` : a request about another value does nothing to it.
-/

namespace ArenaHeap

/-! ## Single calls -/

section Steps

variable {α β : Type} {side : Side} {new x : α} {value : Int32} {p r : Reference}
  {acquired : Except Fault Token} {reply : ListReply} {refs after : List Reference}

theorem Side.mem_put {y : α} : y ∈ side.put new x ↔ y = x ∨ y = new := by
  cases side
  · simp [put]
  · simp [put, or_comm]

theorem Side.map_put (f : α → β) : (side.put new x).map f = side.put (f new) (f x) := by
  cases side <;> rfl

theorem ListStep.insertFront_cases (h : ListStep acquired (.insertFront value) reply refs after) :
    (∃ fault, reply = .inserted (.error (.allocationExhausted fault)) ∧ after = refs) ∨
      ∃ r, reply = .inserted (.ok r) ∧ r.value = value ∧ after = r :: refs := by
  cases h with
  | insertFront refs hvalue => exact Or.inr ⟨_, rfl, hvalue, rfl⟩
  | insertFrontFails value refs hacquired => exact Or.inl ⟨_, rfl, rfl⟩

theorem ListStep.beside_none (h : ListStep acquired (.beside side none value) reply refs after) :
    (∃ text, reply = .inserted (.error (.invalidArgument text))) ∧ after = refs := by
  cases side
  · cases h with
    | insertAfterNone value text refs => exact ⟨⟨text, rfl⟩, rfl⟩
  · cases h with
    | insertBeforeNone value text refs => exact ⟨⟨text, rfl⟩, rfl⟩

/-- A node is put at the side of the first one that is meant, if there is room and one is meant. -/
theorem ListStep.beside_cases (h : ListStep acquired (.beside side (some p) value) reply refs after) :
    (∃ fault, reply = .inserted (.error (.allocationExhausted fault)) ∧ after = refs) ∨
      (reply = .inserted (.error .notFound) ∧ refs.any (·.same p) = false ∧ after = refs) ∨
      ∃ r, reply = .inserted (.ok r) ∧ r.value = value ∧ refs.any (·.same p) = true ∧
        after = spliceFirst (·.same p) (side.put r) refs := by
  have hmeant {x : Reference} {as bs : List Reference} (hx : x.same p = true) :
      (as ++ x :: bs).any (·.same p) = true := List.any_eq_true.mpr ⟨x, by simp, hx⟩
  have hmissed (hrefs : ∀ a ∈ refs, a.same p = false) : refs.any (·.same p) = false :=
    List.any_eq_false.mpr fun a ha => by simp [hrefs a ha]
  cases side
  · cases h with
    | insertAfter bs hx has hvalue =>
      exact Or.inr (Or.inr ⟨_, rfl, hvalue, hmeant hx, (spliceFirst_append (f := Side.put _ .behind) has hx).symm⟩)
    | insertAfterMisses value hrefs => exact Or.inr (Or.inl ⟨rfl, hmissed hrefs, rfl⟩)
    | insertAfterFails previous value refs hacquired => exact Or.inl ⟨_, rfl, rfl⟩
  · cases h with
    | insertBefore bs hx has hvalue =>
      exact Or.inr (Or.inr ⟨_, rfl, hvalue, hmeant hx, (spliceFirst_append (f := Side.put _ .inFront) has hx).symm⟩)
    | insertBeforeMisses value hrefs => exact Or.inr (Or.inl ⟨rfl, hmissed hrefs, rfl⟩)
    | insertBeforeFails next value refs hacquired => exact Or.inl ⟨_, rfl, rfl⟩

theorem ListStep.delete_cases (h : ListStep acquired (.delete value) reply refs after) :
    (reply = .deleted (.error .notFound) ∧ refs.any (·.value == value) = false ∧ after = refs) ∨
      (reply = .deleted (.ok ()) ∧ refs.any (·.value == value) = true ∧
        after = spliceFirst (·.value == value) (fun _ => []) refs) := by
  cases h with
  | @delete value x as bs hx has =>
    have hfirst : (x.value == value) = true := beq_iff_eq.mpr hx
    have hothers : ∀ a ∈ as, (a.value == value) = false := fun a ha => beq_eq_false_iff_ne.mpr (has a ha)
    refine Or.inr ⟨rfl, List.any_eq_true.mpr ⟨x, by simp, hfirst⟩, ?_⟩
    exact (spliceFirst_append (f := fun _ => []) hothers hfirst).symm
  | deleteMisses hrefs => exact Or.inl ⟨rfl, List.any_eq_false.mpr fun a ha => by simpa using hrefs a ha, rfl⟩

theorem ListStep.search_inv (h : ListStep acquired (.search value) reply refs after) :
    reply = .found (refs.find? (·.value == value)) ∧ after = refs := by
  cases h with
  | search value refs => exact ⟨rfl, rfl⟩

end Steps

/-! ## Plain lists -/

/-- A list with nodes of one client only. -/
structure OwnList where
  /-- The number of each node and its value, in order. -/
  nodes : List (Nat × Int32)
  /-- The nodes that the client learned of, by number. -/
  known : List (Option Nat)
  /-- The number of the next node. -/
  made : Nat
  seen : List Observation

namespace OwnList

/-- A list of the given values, numbered in order. -/
def start (values : List Int32) (knows : Bool) : OwnList where
  nodes := values.mapIdx Prod.mk
  known := if knows then (List.range values.length).map some else []
  made := values.length
  seen := []

/-- The list, of which the client is told something. -/
def tell (l : OwnList) (node? : Option Nat) (seen : Observation) : OwnList :=
  { l with known := l.known ++ [node?], seen := l.seen ++ [seen] }

/-- The list with one more node somewhere. -/
def make (l : OwnList) (nodes : List (Nat × Int32)) : OwnList :=
  { l.tell (some l.made) .done with nodes, made := l.made + 1 }

/-- What a request makes of a list. -/
def step (l : OwnList) : Request → OwnList
  | .insertFront value => l.make ((l.made, value) :: l.nodes)
  | .insertBeside side place value =>
    match l.known[place]?.join with
    | none => l.tell none (.refused .invalidArgument)
    | some k =>
      if l.nodes.any (·.1 == k) then l.make (spliceFirst (·.1 == k) (side.put (l.made, value)) l.nodes)
      else l.tell none (.refused .notFound)
  | .delete value =>
    if l.nodes.any (·.2 == value) then
      { l.tell none .done with nodes := spliceFirst (·.2 == value) (fun _ => []) l.nodes }
    else l.tell none (.refused .notFound)
  | .search value =>
    let node? := (l.nodes.find? (·.2 == value)).map Prod.fst
    l.tell node? (.found node?)

end OwnList

/-! ## Views -/

namespace Client

variable {own : Int32 → Bool} {refs after : List Reference} {c : Client} {q : Request}
  {acquired : Except Fault Token} {reply : ListReply} {r x y : Reference}

/-- The number of a node and its value. -/
def label (c : Client) (r : Reference) : Nat × Int32 := (c.number r, r.value)

/-- What a client has of a list, if `own` are its values. -/
def view (own : Int32 → Bool) (refs : List Reference) (c : Client) : OwnList where
  nodes := (refs.filter (own ·.value)).map c.label
  known := c.known.map (Option.map c.number)
  made := c.nodes.length
  seen := c.seen

/-- A client has all nodes of its values in the list, it only learned of nodes that were its own, and no node of
other values passes for one of them. -/
structure Tracks (own : Int32 → Bool) (refs : List Reference) (c : Client) : Prop where
  linked : ∀ r ∈ refs, own r.value = true → r ∈ c.nodes
  known : ∀ r, some r ∈ c.known → r ∈ c.nodes
  apart : ∀ r ∈ refs, ∀ x ∈ c.nodes, r.same x = true → own r.value = true

/-! ### Numbers -/

theorem number_lt (hx : x ∈ c.nodes) : c.number x < c.nodes.length :=
  List.findIdx_lt_length_of_exists ⟨x, hx, x.same_self⟩

theorem getElem?_number (hx : x ∈ c.nodes) : ∃ n, c.nodes[c.number x]? = some n ∧ x.same n = true :=
  ⟨_, List.getElem?_eq_getElem (number_lt hx), List.findIdx_getElem⟩

theorem number_eq_iff (hx : x ∈ c.nodes) (hy : y ∈ c.nodes) : c.number x = c.number y ↔ x.same y = true := by
  constructor
  · intro he
    obtain ⟨n, hn, hxn⟩ := getElem?_number hx
    obtain ⟨m, hm, hym⟩ := getElem?_number hy
    rw [he, hm] at hn
    cases hn
    rw [Reference.same_congr hxn, Reference.same_comm, hym]
  · intro hsame
    unfold number
    rw [Reference.same_congr hsame]

/-- A number stays with its node. -/
theorem number_hear (hx : x ∈ c.nodes) (reply : ListReply) : (c.hear reply).number x = c.number x := by
  have hlt := number_lt hx
  unfold number at hlt ⊢
  rw [hear, List.findIdx_append, if_pos hlt]

/-- A node that is new has a new number. -/
theorem number_newcomer (hr : reply.newcomer? = some r) (hfresh : ∀ x ∈ c.nodes, r.same x = false) :
    (c.hear reply).number r = c.nodes.length := by
  have hnone : c.nodes.findIdx r.same = c.nodes.length :=
    List.findIdx_eq_length_of_false hfresh
  unfold number
  rw [hear, hr, List.findIdx_append, hnone, if_neg (Nat.lt_irrefl _), Option.toList_some, List.findIdx_cons,
    r.same_self]
  simp

theorem number_getElem (h : c.nodes.Pairwise fun r s => r.same s = false) {k : Nat} (hk : k < c.nodes.length) :
    c.number c.nodes[k] = k := by
  refine (List.findIdx_eq hk).mpr ⟨Reference.same_self _, fun j hj => ?_⟩
  rw [Reference.same_comm]
  exact List.pairwise_iff_getElem.mp h j k (by omega) hk hj

/-- Nodes that are apart are numbered in order. -/
theorem map_number_self (h : c.nodes.Pairwise fun r s => r.same s = false) :
    c.nodes.map c.number = List.range c.nodes.length := by
  refine List.ext_getElem (by simp) fun k hk hk' => ?_
  rw [List.getElem_map, List.getElem_range, number_getElem h]

theorem map_label_self (h : c.nodes.Pairwise fun r s => r.same s = false) :
    c.nodes.map c.label = (c.nodes.map Reference.value).mapIdx Prod.mk := by
  refine List.ext_getElem (by simp) fun k hk hk' => ?_
  rw [List.getElem_map, List.getElem_mapIdx, List.getElem_map, label, number_getElem h]

/-! ### Lists and views -/

/-- The values of a client in a list. -/
theorem values_view (own : Int32 → Bool) (refs : List Reference) (c : Client) :
    (c.view own refs).nodes.map Prod.snd = (refs.map Reference.value).filter own := by
  unfold view
  rw [List.map_map, List.filter_map]
  rfl

/-- The first node with a value of the client is the same one in a list and in its view. -/
theorem find?_view {value : Int32} (hown : own value = true) (refs : List Reference) (c : Client) :
    ((c.view own refs).nodes.find? (·.2 == value)).map Prod.fst =
      (refs.find? (·.value == value)).map c.number := by
  have hvalue : (fun r : Reference => decide (own r.value = true ∧ (r.value == value) = true)) =
      (·.value == value) := by
    funext r
    by_cases he : r.value = value <;> simp [he, hown]
  unfold view
  rw [List.find?_map, Option.map_map, List.find?_filter]
  show (refs.find? fun r => decide (own r.value = true ∧ (r.value == value) = true)).map c.number = _
  rw [hvalue]

theorem any_view {value : Int32} (hown : own value = true) (refs : List Reference) (c : Client) :
    (c.view own refs).nodes.any (·.2 == value) = refs.any (·.value == value) := by
  unfold view
  rw [List.any_map, List.any_filter]
  congr 1
  funext r
  by_cases he : r.value = value <;> simp [he, hown, label]

theorem delete_view {value : Int32} (hown : own value = true) (refs : List Reference) (c : Client) :
    (c.view own (spliceFirst (·.value == value) (fun _ => []) refs)).nodes =
      spliceFirst (·.2 == value) (fun _ => []) (c.view own refs).nodes := by
  unfold view
  rw [filter_spliceFirst fun r _ hr => ⟨by rw [eq_of_beq hr, hown], rfl⟩]
  exact map_spliceFirst (r := c.label) (·.2 == value) (fun _ => []) (fun _ => rfl) _

/-- A node meant by a client is the same by number. -/
theorem Tracks.same_eq (h : c.Tracks own refs) (hx : x ∈ c.nodes) (hr : r ∈ refs) (hown : own r.value = true) :
    r.same x = (c.number r == c.number x) := by
  rw [Bool.eq_iff_iff, beq_iff_eq, number_eq_iff (h.linked r hr hown) hx]

theorem Tracks.any_number_view (h : c.Tracks own refs) (hx : x ∈ c.nodes) :
    (c.view own refs).nodes.any (·.1 == c.number x) = refs.any (·.same x) := by
  unfold view
  rw [List.any_map, List.any_filter, Bool.eq_iff_iff, List.any_eq_true, List.any_eq_true]
  refine exists_congr fun r => and_congr_right fun hr => ?_
  rw [Bool.and_eq_true]
  constructor
  · rintro ⟨hown, hnumber⟩
    rw [h.same_eq hx hr hown]
    exact hnumber
  · intro hsame
    have hown := h.apart r hr x hx hsame
    rw [h.same_eq hx hr hown] at hsame
    exact ⟨hown, hsame⟩

/-! ### Requests of the client -/

/-- What the client is told, if nothing is put in. -/
theorem view_tell (own : Int32 → Bool) (refs : List Reference) (c : Client) (hreply : reply.newcomer? = none) :
    (c.hear reply).view own refs =
      (c.view own refs).tell (reply.reference?.map c.number) (c.observe reply) := by
  have hnodes : (c.hear reply).nodes = c.nodes := by rw [hear, hreply, Option.toList_none, List.append_nil]
  have hnumber : (c.hear reply).number = c.number := by
    funext r
    rw [number, number, hnodes]
  have hlabel : (c.hear reply).label = c.label := by
    funext r
    rw [label, label, hnumber]
  unfold view
  rw [hnodes, hnumber, hlabel, OwnList.tell, hear, List.map_append]
  rfl

/-- What the client is told, if a node is put in. -/
theorem Tracks.view_make (h : c.Tracks own refs) (hfresh : ∀ x ∈ c.nodes, r.same x = false)
    (after : List Reference) {nodes : List (Nat × Int32)}
    (hnodes : (after.filter (own ·.value)).map (c.hear (.inserted (.ok r))).label = nodes) :
    (c.hear (.inserted (.ok r))).view own after = (c.view own refs).make nodes := by
  have hknown : c.known.map (Option.map (c.hear (.inserted (.ok r))).number) =
      c.known.map (Option.map c.number) := by
    refine List.map_congr_left fun x? hx => ?_
    cases x? with
    | none => rfl
    | some x => exact congrArg some (number_hear (h.known x hx) _)
  have hnew : (c.hear (.inserted (.ok r))).number r = c.nodes.length := number_newcomer rfl hfresh
  have hlength : (c.hear (.inserted (.ok r))).nodes.length = c.nodes.length + 1 := by
    rw [hear, List.length_append]
    rfl
  unfold view OwnList.make
  rw [hnodes, hlength, ← hknown, ← hnew]
  show OwnList.mk _ (List.map _ (c.known ++ [some r])) _ _ = _
  rw [List.map_append]
  rfl

theorem label_hear (hx : x ∈ c.nodes) (reply : ListReply) : (c.hear reply).label x = c.label x := by
  rw [label, label, number_hear hx]

/-- A node that is put next to another one is put next to the same one in the view. -/
theorem Tracks.put_view (h : c.Tracks own refs) (hx : x ∈ c.nodes) (hown : own r.value = true)
    (hfresh : ∀ y ∈ c.nodes, r.same y = false) (side : Side) :
    ((spliceFirst (·.same x) (side.put r) refs).filter (own ·.value)).map (c.hear (.inserted (.ok r))).label =
      spliceFirst (·.1 == c.number x) (side.put (c.nodes.length, r.value)) (c.view own refs).nodes := by
  have hnew : (c.hear (.inserted (.ok r))).label r = (c.nodes.length, r.value) := by
    rw [label, number_newcomer rfl hfresh]
  have hlinked : ∀ y ∈ refs.filter (own ·.value), y ∈ c.nodes := fun y hy =>
    h.linked y (List.mem_filter.mp hy).1 (List.mem_filter.mp hy).2
  have hkept : ∀ y ∈ refs, y.same x = true →
      own y.value = true ∧ (side.put r y).filter (own ·.value) = side.put r y := by
    intro y hy hsame
    have hy := h.apart y hy x hx hsame
    refine ⟨hy, List.filter_eq_self.mpr fun z hz => ?_⟩
    rcases Side.mem_put.mp hz with rfl | rfl
    · exact hy
    · exact hown
  have hsame : ∀ y ∈ refs.filter (own ·.value),
      y.same x = (((c.hear (.inserted (.ok r))).label y).1 == c.number x) := by
    intro y hy
    rw [label_hear (hlinked y hy), label, h.same_eq hx (List.mem_filter.mp hy).1 (List.mem_filter.mp hy).2]
  rw [filter_spliceFirst hkept, spliceFirst_congr hsame,
    map_spliceFirst (·.1 == c.number x) (side.put (c.nodes.length, r.value)) fun y => by rw [Side.map_put, hnew],
    List.map_congr_left fun y hy => label_hear (hlinked y hy) _]
  rfl

theorem Tracks.front_view (h : c.Tracks own refs) (hown : own r.value = true)
    (hfresh : ∀ y ∈ c.nodes, r.same y = false) :
    ((r :: refs).filter (own ·.value)).map (c.hear (.inserted (.ok r))).label =
      (c.nodes.length, r.value) :: (c.view own refs).nodes := by
  have hnew : (c.hear (.inserted (.ok r))).label r = (c.nodes.length, r.value) := by
    rw [label, number_newcomer rfl hfresh]
  rw [List.filter_cons, if_pos hown, List.map_cons, hnew, List.map_congr_left fun y hy =>
    label_hear (h.linked y (List.mem_filter.mp hy).1 (List.mem_filter.mp hy).2) _]
  rfl

/-- The node that a client means, and its number. -/
theorem join_known (own : Int32 → Bool) (refs : List Reference) (c : Client) (place : Nat) :
    (c.view own refs).known[place]?.join = c.known[place]?.join.map c.number := by
  unfold view
  rw [List.getElem?_map]
  rcases c.known[place]? with _ | _ | r <;> rfl

theorem Tracks.mem_of_join (h : c.Tracks own refs) {place : Nat} (hx : c.known[place]?.join = some x) :
    x ∈ c.nodes :=
  h.known x (List.mem_of_getElem? (Option.join_eq_some_iff.mp hx))

/-- A request of the client does to its view what it does to a plain list. -/
theorem Tracks.view_hear (h : c.Tracks own refs) (hstep : ListStep acquired (q.call c.known) reply refs after)
    (hown : own q.value = true) (hroom : c.observe reply ≠ .refused .allocationExhausted)
    (hfresh : ∀ r, reply.newcomer? = some r → ∀ x ∈ c.nodes, r.same x = false) :
    (c.hear reply).view own after = (c.view own refs).step q := by
  cases q with
  | insertFront value =>
    rcases hstep.insertFront_cases with ⟨fault, rfl, -⟩ | ⟨r, rfl, rfl, rfl⟩
    · exact absurd rfl hroom
    · rw [h.view_make (hfresh r rfl) _ (h.front_view hown (hfresh r rfl))]
      rfl
  | insertBeside side place value =>
    change ListStep acquired (.beside side c.known[place]?.join value) reply refs after at hstep
    rw [OwnList.step, join_known]
    rcases hx : c.known[place]?.join with _ | x
    · rw [hx] at hstep
      obtain ⟨⟨text, rfl⟩, rfl⟩ := hstep.beside_none
      exact view_tell own after c rfl
    · rw [hx] at hstep
      have hmem := h.mem_of_join hx
      rw [Option.map_some]
      simp only [h.any_number_view hmem]
      rcases hstep.beside_cases with ⟨fault, rfl, -⟩ | ⟨rfl, hmissed, rfl⟩ | ⟨r, rfl, rfl, hmeant, rfl⟩
      · exact absurd rfl hroom
      · rw [hmissed]
        exact view_tell own after c rfl
      · rw [hmeant, h.view_make (hfresh r rfl) _ (h.put_view hmem hown (hfresh r rfl) side)]
        rfl
  | delete value =>
    change own value = true at hown
    rw [OwnList.step, any_view hown]
    rcases hstep.delete_cases with ⟨rfl, hmissed, rfl⟩ | ⟨rfl, hmet, rfl⟩
    · rw [hmissed]
      exact view_tell own after c rfl
    · rw [hmet, view_tell own _ c rfl, ← delete_view hown]
      rfl
  | search value =>
    change own value = true at hown
    obtain ⟨rfl, rfl⟩ := hstep.search_inv
    rw [view_tell own after c rfl, OwnList.step, find?_view hown]
    rfl

end Client

/-! ## Requests of others -/

section Others

variable {own : Int32 → Bool} {refs after : List Reference} {known : List (Option Reference)} {q : Request}
  {acquired : Except Fault Token} {reply : ListReply}

/-- A request leaves the nodes as they are, or puts one in front of all or next to a known one, or takes one out. -/
theorem ListStep.request_cases (hstep : ListStep acquired (q.call known) reply refs after) :
    (reply.newcomer? = none ∧ (∀ r, reply.reference? = some r → r ∈ refs ∧ r.value = q.value) ∧ after = refs) ∨
      (q.isFront = true ∧ ∃ r, reply = .inserted (.ok r) ∧ r.value = q.value ∧ after = r :: refs) ∨
      (∃ (side : Side) (x r : Reference), some x ∈ known ∧ reply = .inserted (.ok r) ∧ r.value = q.value ∧
        after = spliceFirst (·.same x) (side.put r) refs) ∨
      (reply = .deleted (.ok ()) ∧ after = spliceFirst (·.value == q.value) (fun _ => []) refs) := by
  cases q with
  | insertFront value =>
    rcases hstep.insertFront_cases with ⟨fault, rfl, rfl⟩ | ⟨r, rfl, hvalue, rfl⟩
    · exact Or.inl ⟨rfl, nofun, rfl⟩
    · exact Or.inr (Or.inl ⟨rfl, r, rfl, hvalue, rfl⟩)
  | insertBeside side place value =>
    change ListStep acquired (.beside side known[place]?.join value) reply refs after at hstep
    rcases hx : known[place]?.join with _ | x
    · rw [hx] at hstep
      obtain ⟨⟨text, rfl⟩, rfl⟩ := hstep.beside_none
      exact Or.inl ⟨rfl, nofun, rfl⟩
    · rw [hx] at hstep
      rcases hstep.beside_cases with ⟨fault, rfl, rfl⟩ | ⟨rfl, -, rfl⟩ | ⟨r, rfl, hvalue, -, rfl⟩
      · exact Or.inl ⟨rfl, nofun, rfl⟩
      · exact Or.inl ⟨rfl, nofun, rfl⟩
      · have hmem := List.mem_of_getElem? (Option.join_eq_some_iff.mp hx)
        exact Or.inr (Or.inr (Or.inl ⟨side, x, r, hmem, rfl, hvalue, rfl⟩))
  | delete value =>
    rcases hstep.delete_cases with ⟨rfl, -, rfl⟩ | ⟨rfl, -, rfl⟩
    · exact Or.inl ⟨rfl, nofun, rfl⟩
    · exact Or.inr (Or.inr (Or.inr ⟨rfl, rfl⟩))
  | search value =>
    obtain ⟨rfl, rfl⟩ := hstep.search_inv
    refine Or.inl ⟨rfl, fun r hr => ?_, rfl⟩
    have hvalue := List.find?_some hr
    exact ⟨List.mem_of_find?_eq_some hr, eq_of_beq hvalue⟩

/-- A node that is put in has the value that was asked for. -/
theorem ListStep.value_newcomer (hstep : ListStep acquired (q.call known) reply refs after) {r : Reference}
    (hr : reply.newcomer? = some r) : r.value = q.value := by
  rcases hstep.request_cases with ⟨hnone, -⟩ | ⟨-, r', rfl, hvalue, -⟩ | ⟨-, -, r', -, rfl, hvalue, -⟩ | ⟨rfl, -⟩
  · rw [hr] at hnone
    cases hnone
  · cases hr
    exact hvalue
  · cases hr
    exact hvalue
  · cases hr

/-- What is in a list after a request was in it before, or it is the node that was put in. -/
theorem ListStep.mem_after (hstep : ListStep acquired (q.call known) reply refs after) {r : Reference} (hr : r ∈ after) :
    r ∈ refs ∨ reply.newcomer? = some r := by
  rcases hstep.request_cases with ⟨-, -, rfl⟩ | ⟨-, r', rfl, -, rfl⟩ | ⟨side, x, r', -, rfl, -, rfl⟩ | ⟨-, rfl⟩
  · exact Or.inl hr
  · rcases List.mem_cons.mp hr with rfl | hr
    · exact Or.inr rfl
    · exact Or.inl hr
  · rcases mem_spliceFirst hr with hr | ⟨y, hy, hr⟩
    · exact Or.inl hr
    · rcases Side.mem_put.mp hr with rfl | rfl
      · exact Or.inl hy
      · exact Or.inr rfl
  · rcases mem_spliceFirst hr with hr | ⟨y, -, hr⟩
    · exact Or.inl hr
    · cases hr

/-- A reference that a client is told is that of the node that was put in, or of one with the value. -/
theorem ListStep.reference_cases (hstep : ListStep acquired (q.call known) reply refs after) {r : Reference}
    (hr : reply.reference? = some r) : reply.newcomer? = some r ∨ r ∈ refs ∧ r.value = q.value := by
  rcases hstep.request_cases with ⟨-, htold, -⟩ | ⟨-, r', rfl, -⟩ | ⟨-, -, r', -, rfl, -⟩ | ⟨rfl, -⟩
  · exact Or.inr (htold r hr)
  · exact Or.inl hr
  · exact Or.inl hr
  · cases hr

/-- A request does nothing to the nodes of other values. -/
theorem ListStep.filter_other (hstep : ListStep acquired (q.call known) reply refs after) (hother : own q.value = false) :
    after.filter (own ·.value) = refs.filter (own ·.value) := by
  rcases hstep.request_cases with ⟨-, -, rfl⟩ | ⟨-, r, -, hvalue, rfl⟩ | ⟨side, x, r, -, -, hvalue, rfl⟩ | ⟨-, rfl⟩
  · rfl
  · rw [← hvalue] at hother
    rw [List.filter_cons, if_neg (Bool.eq_false_iff.mp hother)]
  · rw [← hvalue] at hother
    refine filter_spliceFirst_eq fun y _ _ => ?_
    cases side <;> simp [Side.put, List.filter_cons, hother]
  · refine filter_spliceFirst_eq fun y _ hy => ?_
    rw [List.filter_cons, eq_of_beq hy, hother]
    rfl

end Others

namespace Client.Tracks

variable {own : Int32 → Bool} {refs after : List Reference} {c : Client} {known : List (Option Reference)}
  {q : Request} {acquired : Except Fault Token} {reply : ListReply}

/-- A client keeps track of its nodes when it is served. -/
theorem hear (h : c.Tracks own refs) (hstep : ListStep acquired (q.call c.known) reply refs after)
    (hown : own q.value = true)
    (hapart : ∀ r ∈ after, ∀ x ∈ (c.hear reply).nodes, r.same x = true → own r.value = true) :
    (c.hear reply).Tracks own after := by
  have hnew {r : Reference} (hr : reply.newcomer? = some r) : r ∈ (c.hear reply).nodes :=
    List.mem_append_right _ (Option.mem_toList.mpr hr)
  refine ⟨fun r hr hrown => ?_, fun r hr => ?_, hapart⟩
  · rcases hstep.mem_after hr with hr | hr
    · exact List.mem_append_left _ (h.linked r hr hrown)
    · exact hnew hr
  · rcases List.mem_append.mp hr with hr | hr
    · exact List.mem_append_left _ (h.known r hr)
    · rcases hstep.reference_cases (List.mem_singleton.mp hr).symm with hr | ⟨hr, hvalue⟩
      · exact hnew hr
      · rw [← hvalue] at hown
        exact List.mem_append_left _ (h.linked r hr hown)

/-- A client keeps track of its nodes when another one is served. -/
theorem other (h : c.Tracks own refs) (hstep : ListStep acquired (q.call known) reply refs after)
    (hother : own q.value = false)
    (hapart : ∀ r ∈ after, ∀ x ∈ c.nodes, r.same x = true → own r.value = true) : c.Tracks own after := by
  refine ⟨fun r hr hrown => ?_, h.known, hapart⟩
  rcases hstep.mem_after hr with hr | hr
  · exact h.linked r hr hrown
  · rw [hstep.value_newcomer hr, hother] at hrown
    cases hrown

end Client.Tracks

end ArenaHeap
