import ArenaHeap.Proofs.Facade.Regions

/-!
# A facade is a map of live regions

Whatever pointers a facade is given, it does what a finite map from live pointers to their bytes does.

* `RawCall`, `RawReply`, `Facade.perform` : what can be asked of a facade, and what it does then;
* `Facade.Allowed` : no process aborts, arenas are placed well, and only live bytes are written;
* `LiveStep` : what a call and its reply mean for the map, with an arena or without;
* `RawCall.readyAfter` : whether there is an arena after a call;
* `LiveMap.Rejects` : the replies after which nothing has changed;
* `Facade.Steps` : a facade made a step of the map;
* `Facade.Refines` : whatever call comes next is a step of the map;
* `Facade.Runs`, `LiveRuns` : runs of a facade and of a map; `Runs.refines` : they are the same.
-/

namespace ArenaHeap

/-- What can be asked of a facade. Pointers may be any. -/
inductive RawCall where
  | init (capacity : UInt64)
  | deinit
  | allocate (size : UInt64)
  | resize (pointer? : Option UInt64) (size : UInt64)
  | free (pointer? : Option UInt64)
  /-- Writes some bytes behind a pointer, as its holder may. -/
  | write (pointer : UInt64) (place : Nat) (bytes : List UInt8)
deriving DecidableEq

/-- What a facade answers. -/
inductive RawReply where
  | nothing
  | status (status : Facade.Status)
  | pointer (pointer? : Option UInt64)
deriving DecidableEq

/-- What a call and its reply mean for the live regions, if `ready` tells whether there is an arena. An arena is
refused only if there is one already, or if it would be too small. -/
inductive LiveStep (ready : Bool) : RawCall → RawReply → LiveMap → LiveMap → Prop
  | init {capacity : UInt64} (hready : ready = false)
    (hroom : Geometry.standard.minimumCapacity ≤ Geometry.standard.arenaSize capacity) :
    LiveStep ready (.init capacity) (.status .ready) ∅ ∅
  | initRefused {capacity : UInt64} (m : LiveMap)
    (hrefused : ready = true ∨ Geometry.standard.arenaSize capacity < Geometry.standard.minimumCapacity) :
    LiveStep ready (.init capacity) (.status .refused) m m
  | deinit (m : LiveMap) : LiveStep ready .deinit .nothing m ∅
  | allocate {size q : UInt64} {bs : List UInt8} {m : LiveMap} (hready : ready = true) (hpos : size ≠ 0)
    (hnew : q ∉ m) (hsize : size.toNat ≤ bs.length) (hwell : LiveMap.WellFormed (m.insert q bs)) :
    LiveStep ready (.allocate size) (.pointer (some q)) m (m.insert q bs)
  | allocateFails (size : UInt64) (m : LiveMap) : LiveStep ready (.allocate size) (.pointer none) m m
  | resizeNone {size : UInt64} {reply : RawReply} {m m' : LiveMap} (h : LiveStep ready (.allocate size) reply m m') :
    LiveStep ready (.resize none size) reply m m'
  | resizeUnknown {p : UInt64} (size : UInt64) {m : LiveMap} (hp : p ∉ m) :
    LiveStep ready (.resize (some p) size) (.pointer none) m m
  | resizeZero {p : UInt64} {m : LiveMap} (hp : p ∈ m) :
    LiveStep ready (.resize (some p) 0) (.pointer none) m (m.erase p)
  | resize {p q size : UInt64} {bs bs' : List UInt8} {m : LiveMap} (hp : m.lookup p = some bs)
    (hpos : size ≠ 0) (hnew : q ∉ m.erase p) (hsize : size.toNat ≤ bs'.length) (hbytes : bs <+: bs')
    (hwell : LiveMap.WellFormed ((m.erase p).insert q bs')) :
    LiveStep ready (.resize (some p) size) (.pointer (some q)) m ((m.erase p).insert q bs')
  | resizeFails {p size : UInt64} {m : LiveMap} (hp : p ∈ m) (hpos : size ≠ 0) :
    LiveStep ready (.resize (some p) size) (.pointer none) m m
  | free {p : UInt64} {m : LiveMap} (hp : p ∈ m) : LiveStep ready (.free (some p)) .nothing m (m.erase p)
  | freeUnknown {p : UInt64} {m : LiveMap} (hp : p ∉ m) : LiveStep ready (.free (some p)) .nothing m m
  | freeNone (m : LiveMap) : LiveStep ready (.free none) .nothing m m
  | write {p : UInt64} {place : Nat} {bs bytes : List UInt8} {m : LiveMap} (hp : m.lookup p = some bs)
    (hfit : place + bytes.length ≤ bs.length) :
    LiveStep ready (.write p place bytes) .nothing m (m.insert p (overwrite bs place bytes))

/-- Whether there is an arena after a call and its reply, if `ready` tells whether there was one before. -/
def RawCall.readyAfter (ready : Bool) : RawCall → RawReply → Bool
  | .init _, .status .ready => true
  | .deinit, _ => false
  | _, _ => ready

/-- Whether a call was refused, or had nothing to do. -/
def LiveMap.Rejects (m : LiveMap) : RawCall → RawReply → Prop
  | .init _, reply => reply = .status .refused
  | .allocate _, reply | .resize none _, reply => reply = .pointer none
  | .resize (some p) size, reply => reply = .pointer none ∧ (p ∈ m → size ≠ 0)
  | .free p?, _ => ∀ p ∈ p?, p ∉ m
  | _, _ => False

namespace Facade

/-- What a facade does. -/
def perform (f : Facade) : RawCall → RawReply × Facade
  | .init capacity => let (status, f) := Facade.init f capacity; (.status status, f)
  | .deinit => (.nothing, Facade.deinit f)
  | .allocate size => let (p?, f) := Facade.allocate f size; (.pointer p?, f)
  | .resize p? size => let (q?, f) := Facade.resize f p? size; (.pointer q?, f)
  | .free p? => (.nothing, Facade.free f p?)
  | .write p place bytes => (.nothing, Allocator.write f (p + .ofNat place) bytes)

/-- The process does not abort for want of an arena, arenas are placed well, and only live bytes are
written. -/
def Allowed (f : Facade) : RawCall → Prop
  | .init capacity => (Facade.init f capacity).1 ≠ .fatal ∧ (f.space = none → ∀ arena, (Arena.claim f.store
    (Geometry.standard.arenaSize capacity) Geometry.standard.granularity).1 = some arena → arena.Placed .standard)
  | .write p place bytes => ∃ bs, f.live.lookup p = some bs ∧ place + bytes.length ≤ bs.length
  | _ => True

/-- A facade that lends tokens made a step of the map, and lends tokens again. A facade that rejects a call
is the facade that it was. -/
structure Steps (f : Facade) (call : RawCall) (reply : RawReply) (f' : Facade) : Prop where
  lends : ∃ toks, Allocator.Lends f' toks
  step : LiveStep (Allocator.isInitialized f) call reply f.live f'.live
  ready : Allocator.isInitialized f' = call.readyAfter (Allocator.isInitialized f) reply
  rejects : f.live.Rejects call reply → f' = f

variable {f f' : Facade} {toks : List Token} {t t' : Token} {p : UInt64} {call : RawCall} {reply : RawReply}

/-! ## Live regions -/

theorem standard_grid : 16 ∣ Geometry.standard.grid := by decide

theorem live_wellFormed (h : Allocator.Lends f toks) : f.live.WellFormed := by
  rw [live_eq h]
  exact h.wellFormed standard_grid

theorem mem_live (h : Allocator.Lends f toks) : p ∈ f.live ↔ ∃ t ∈ toks, t.address = p := by
  rw [live_eq h, Allocator.mem_regions, List.mem_map]

theorem lookup_live (h : Allocator.Lends f toks) (ht : t ∈ toks) :
    f.live.lookup t.address = some (Allocator.read f t.address t.size.toNat) := by
  rw [live_eq h, Allocator.lookup_regions h.nodup]
  exact ⟨t, ht, rfl, rfl⟩

theorem erase_live (h : Allocator.Lends f (t :: toks)) :
    f.live.erase t.address = Allocator.regions f toks := by
  have hnodup := h.nodup
  rw [List.map_cons, List.nodup_cons] at hnodup
  rw [live_eq h, Allocator.erase_regions hnodup.1]

theorem live_release (h : Allocator.Lends f (t :: toks)) (h' : Allocator.Lends f' toks)
    (hs : Allocator.Spares f f' toks) : f'.live = f.live.erase t.address := by
  rw [live_eq h', Allocator.regions_spares hs, erase_live h]

/-- The region of a token that was handed out is new among those that were there. -/
theorem live_grant {m : LiveMap} (hm : m = Allocator.regions f toks) (h' : Allocator.Lends f' (t :: toks))
    (hs : Allocator.Spares f f' toks) :
    ∃ bs, bs = Allocator.read f' t.address t.size.toNat ∧ bs.length = t.size.toNat ∧
      f'.live = m.insert t.address bs ∧ t.address ∉ m ∧ LiveMap.WellFormed (m.insert t.address bs) := by
  have hlive : f'.live = m.insert t.address (Allocator.read f' t.address t.size.toNat) := by
    rw [live_eq h', Allocator.regions_cons, Allocator.regions_spares hs, hm]
  have hnodup := h'.nodup
  rw [List.map_cons, List.nodup_cons] at hnodup
  refine ⟨_, rfl, Allocator.length_read (h'.isInitialized List.mem_cons_self) _ _, hlive, ?_, ?_⟩
  · rw [hm, Allocator.mem_regions]
    exact hnodup.1
  · rw [← hlive]
    exact live_wellFormed h'

/-- A pointer is that of a live region or refused. -/
theorem recover_cases (h : Allocator.Lends f toks) (p : UInt64) :
    (∃ fault, Allocator.recover f p = .error fault ∧ p ∉ f.live) ∨
      ∃ t rest, Allocator.recover f p = .ok t ∧ t.address = p ∧ Allocator.Lends f (t :: rest) := by
  cases hrecover : Allocator.recover f p with
  | error fault =>
    refine Or.inl ⟨fault, rfl, ?_⟩
    rw [mem_live h]
    rintro ⟨t, ht, rfl⟩
    rw [h.recover_iff.mpr ⟨ht, rfl⟩] at hrecover
    cases hrecover
  | ok t =>
    obtain ⟨ht, haddress⟩ := h.recover_iff.mp hrecover
    exact Or.inr ⟨t, _, rfl, haddress, h.perm (List.perm_cons_erase ht)⟩

/-! ## Steps -/

theorem allocate_steps (h : Allocator.Lends f toks) (size : UInt64) :
    f.Steps (.allocate size) (f.perform (.allocate size)).1 (f.perform (.allocate size)).2 := by
  rcases h.acquire_cases Geometry.standard_exact size with ⟨fault, he⟩ | ⟨t, f', he, hsize, h', hs⟩
  · simp only [perform, allocate, he]
    exact ⟨⟨toks, h⟩, .allocateFails size _, rfl, fun _ => rfl⟩
  · obtain ⟨bs, -, hlength, hlive, hnew, hwell⟩ := live_grant (live_eq h) h' hs
    have hready := Allocator.isInitialized_of_extent hs.extent
    simp only [perform, allocate, he]
    refine ⟨⟨_, h'⟩, ?_, hready, nofun⟩
    rw [hlive, ← hready]
    exact .allocate (h'.isInitialized List.mem_cons_self) (Allocator.ne_zero_of_acquire he) hnew (hlength ▸ hsize) hwell

theorem free_steps (h : Allocator.Lends f toks) (p? : Option UInt64) :
    f.Steps (.free p?) (f.perform (.free p?)).1 (f.perform (.free p?)).2 := by
  cases p? with
  | none => exact ⟨⟨toks, h⟩, .freeNone _, rfl, fun _ => rfl⟩
  | some p =>
    rcases recover_cases h p with ⟨fault, hrecover, hnot⟩ | ⟨t, rest, hrecover, rfl, hsplit⟩
    · simp only [perform, free, hrecover]
      exact ⟨⟨toks, h⟩, .freeUnknown hnot, rfl, fun _ => rfl⟩
    · obtain ⟨f', he, h', hs⟩ := hsplit.release
      have hp := (mem_live hsplit).mpr ⟨t, List.mem_cons_self, rfl⟩
      simp only [perform, free, hrecover, he]
      refine ⟨⟨_, h'⟩, ?_, Allocator.isInitialized_of_extent hs.extent, fun hnot => absurd hp (hnot _ rfl)⟩
      rw [live_release hsplit h' hs]
      exact .free hp

/-- No pointer is the pointer of no block: a block is allocated. -/
theorem resize_none (f : Facade) (size : UInt64) : f.perform (.resize none size) = f.perform (.allocate size) := by
  have hmap : (none : Option UInt64).mapM (Allocator.recover f) = .ok none := rfl
  simp only [perform, resize, allocate, hmap, Allocator.resize]
  rcases Allocator.acquire f size with ⟨_ | t, f'⟩ <;> rfl

theorem resize_some_steps (h : Allocator.Lends f toks) (p size : UInt64) :
    f.Steps (.resize (some p) size) (f.perform (.resize (some p) size)).1
      (f.perform (.resize (some p) size)).2 := by
  rcases recover_cases h p with ⟨fault, hrecover, hnot⟩ | ⟨t, rest, hrecover, rfl, hsplit⟩
  · have hmap : (some p).mapM (Allocator.recover f) = .error fault := by
      rw [Option.mapM_some, hrecover]
      rfl
    simp only [perform, resize, hmap]
    exact ⟨⟨toks, h⟩, .resizeUnknown size hnot, rfl, fun _ => rfl⟩
  have hmap : (some t.address).mapM (Allocator.recover f) = .ok (some t) := by
    rw [Option.mapM_some, hrecover]
    rfl
  have hp := (mem_live hsplit).mpr ⟨t, List.mem_cons_self, rfl⟩
  by_cases hpos : size = 0
  · subst hpos
    obtain ⟨f', he, h', hs⟩ := hsplit.release
    simp only [perform, resize, hmap, Allocator.resize, if_pos, he]
    refine ⟨⟨_, h'⟩, ?_, Allocator.isInitialized_of_extent hs.extent, fun hrejects => absurd rfl (hrejects.2 hp)⟩
    rw [live_release hsplit h' hs]
    exact .resizeZero hp
  rcases hsplit.resize_cases Geometry.standard_exact hpos with ⟨fault, he⟩ | ⟨t', f', he, hregrows, h', hs⟩
  · simp only [perform, resize, hmap, he]
    exact ⟨⟨toks, h⟩, .resizeFails hp hpos, rfl, fun _ => rfl⟩
  · obtain ⟨bs, hbs, hlength, hlive, hnew, hwell⟩ := live_grant (erase_live hsplit) h' hs
    have hbytes : Allocator.read f t.address t.size.toNat <+: bs := by
      rw [hbs, ← hregrows.bytes, ← Allocator.take_read _ _ hregrows.larger]
      exact List.take_prefix _ _
    simp only [perform, resize, hmap, he, Option.map_some]
    refine ⟨⟨_, h'⟩, ?_, Allocator.isInitialized_of_extent hs.extent, fun hrejects => by cases hrejects.1⟩
    rw [hlive]
    exact .resize (lookup_live hsplit List.mem_cons_self) hpos hnew (hlength ▸ hregrows.serves) hbytes hwell

theorem resize_steps (h : Allocator.Lends f toks) (p? : Option UInt64) (size : UInt64) :
    f.Steps (.resize p? size) (f.perform (.resize p? size)).1 (f.perform (.resize p? size)).2 := by
  cases p? with
  | none =>
    rw [resize_none]
    obtain ⟨hlends, hstep, hready, hrejects⟩ := allocate_steps h size
    exact ⟨hlends, .resizeNone hstep, hready, hrejects⟩
  | some p => exact resize_some_steps h p size

theorem write_steps (h : Allocator.Lends f toks) {place : Nat} {bytes : List UInt8}
    (hok : f.Allowed (.write p place bytes)) : f.Steps (.write p place bytes)
      (f.perform (.write p place bytes)).1 (f.perform (.write p place bytes)).2 := by
  obtain ⟨bs, hlookup, hfit⟩ := hok
  have hbytes := hlookup
  rw [live_eq h, Allocator.lookup_regions h.nodup] at hbytes
  obtain ⟨t, ht, rfl, rfl⟩ := hbytes
  have hroom := hfit
  rw [Allocator.length_read (h.isInitialized ht)] at hroom
  have hsplit := h.perm (List.perm_cons_erase ht)
  obtain ⟨h', hs⟩ := hsplit.write hroom
  have hlive : (f.perform (.write t.address place bytes)).2.live = f.live.insert t.address
      (overwrite (Allocator.read f t.address t.size.toNat) place bytes) := by
    rw [← h.read_write ht hroom, live_eq hsplit, Allocator.regions_cons, Finmap.insert_insert,
      ← Allocator.regions_spares hs, ← Allocator.regions_cons]
    exact live_eq h'
  refine ⟨⟨_, h'⟩, ?_, Allocator.isInitialized_of_extent hs.extent, nofun⟩
  rw [hlive]
  exact .write hlookup hfit

theorem init_steps (h : Allocator.Lends f toks) {capacity : UInt64} (hok : f.Allowed (.init capacity)) :
    f.Steps (.init capacity) (f.perform (.init capacity)).1 (f.perform (.init capacity)).2 := by
  obtain ⟨hfatal, hplaced⟩ := hok
  by_cases hready : Allocator.isInitialized f = true
  · simp only [perform, init, Allocator.init, if_pos hready]
    exact ⟨⟨toks, h⟩, .initRefused _ (Or.inl hready), rfl, fun _ => rfl⟩
  have hunready : Allocator.isInitialized f = false := Bool.eq_false_of_not_eq_true hready
  have hbare : f.space = none := Option.not_isSome_iff_eq_none.mp hready
  obtain rfl := h.eq_nil hbare
  have h' := h.init Geometry.standard_exact capacity (hplaced hbare)
  by_cases hsmall : Geometry.standard.arenaSize capacity < Geometry.standard.minimumCapacity
  · simp only [perform, init, Allocator.init, if_neg hready, if_pos hsmall]
    exact ⟨⟨[], h⟩, .initRefused _ (Or.inr hsmall), rfl, fun _ => rfl⟩
  rcases hclaim : Arena.claim f.store (Geometry.standard.arenaSize capacity) Geometry.standard.granularity with
    ⟨_ | arena, store⟩
  · simp only [init, Allocator.init, if_neg hready, if_neg hsmall, hclaim] at hfatal
    exact absurd rfl hfatal
  · simp only [Allocator.init, if_neg hready, if_neg hsmall, hclaim] at h'
    simp only [perform, init, Allocator.init, if_neg hready, if_neg hsmall, hclaim]
    refine ⟨⟨[], h'⟩, ?_, rfl, nofun⟩
    rw [live_eq h, live_eq h']
    exact .init hunready (UInt64.not_lt.mp hsmall)

theorem deinit_steps (h : Allocator.Lends f toks) :
    f.Steps .deinit (f.perform .deinit).1 (f.perform .deinit).2 := by
  refine ⟨⟨_, h.deinit⟩, ?_, ?_, nofun⟩
  · rw [show (f.perform .deinit).2.live = ∅ from live_eq h.deinit]
    exact .deinit _
  · simp only [perform, deinit, Allocator.deinitUnchecked, Allocator.deinit_eq]
    rfl

/-- Whatever is asked of a facade that lends tokens, it makes a step of the map. -/
theorem perform_steps (h : Allocator.Lends f toks) (call : RawCall) (hok : f.Allowed call) :
    f.Steps call (f.perform call).1 (f.perform call).2 := by
  cases call with
  | init capacity => exact init_steps h hok
  | deinit => exact deinit_steps h
  | allocate size => exact allocate_steps h size
  | resize p? size => exact resize_steps h p? size
  | free p? => exact free_steps h p?
  | write p place bytes => exact write_steps h hok

/-! ## Runs -/

/-- Calls and their replies, the latest last, and the facade that they leave of one without an arena. -/
inductive Runs (store : BackingStore) : List (RawCall × RawReply) → Facade → Prop
  | start : Runs store [] ⟨store, none⟩
  | step {trace : List (RawCall × RawReply)} {f : Facade} {call : RawCall} (h : Runs store trace f)
    (hok : f.Allowed call) : Runs store (trace ++ [(call, (f.perform call).1)]) (f.perform call).2

end Facade

/-- Calls and their replies, the latest last, and what they leave where there was no arena: whether there is one,
and the map. -/
inductive LiveRuns : List (RawCall × RawReply) → Bool → LiveMap → Prop
  | start : LiveRuns [] false ∅
  | step {trace : List (RawCall × RawReply)} {ready : Bool} {call : RawCall} {reply : RawReply} {m m' : LiveMap}
    (h : LiveRuns trace ready m) (hstep : LiveStep ready call reply m m') :
    LiveRuns (trace ++ [(call, reply)]) (call.readyAfter ready reply) m'

namespace Facade

/-- The facade does what the map of its live regions does, whatever comes next. -/
structure Refines (f : Facade) : Prop where
  wellFormed : f.live.WellFormed
  count : f.allocatedBlocks = f.space.map fun _ => .ofNat f.live.keys.card
  steps : ∀ call, f.Allowed call →
    LiveStep (Allocator.isInitialized f) call (f.perform call).1 f.live (f.perform call).2.live
  ready : ∀ call, f.Allowed call →
    Allocator.isInitialized (f.perform call).2 = call.readyAfter (Allocator.isInitialized f) (f.perform call).1
  /-- Not even a byte of the arena is different after a call that is rejected. -/
  rejects : ∀ call, f.Allowed call → f.live.Rejects call (f.perform call).1 → (f.perform call).2 = f
  null : ∀ size, f.perform (.resize none size) = f.perform (.allocate size)

variable {store : BackingStore} {trace : List (RawCall × RawReply)} {f : Facade} {toks : List Token}

theorem refines_of_lends (h : Allocator.Lends f toks) : f.Refines where
  wellFormed := live_wellFormed h
  count := allocatedBlocks_eq h
  steps call hok := (perform_steps h call hok).step
  ready call hok := (perform_steps h call hok).ready
  rejects call hok := (perform_steps h call hok).rejects
  null := resize_none f

theorem Runs.lends (h : Runs store trace f) :
    (∃ toks, Allocator.Lends f toks) ∧ LiveRuns trace (Allocator.isInitialized f) f.live := by
  induction h with
  | start => exact ⟨⟨[], .bare store⟩, .start⟩
  | step h hok ih =>
    obtain ⟨⟨toks, hlends⟩, hruns⟩ := ih
    have hsteps := perform_steps hlends _ hok
    refine ⟨hsteps.lends, ?_⟩
    rw [hsteps.ready]
    exact .step hruns hsteps.step

/-- A run of a facade is a run of the map of its live regions. -/
theorem Runs.refines (h : Runs store trace f) :
    LiveRuns trace (Allocator.isInitialized f) f.live ∧ f.Refines := by
  obtain ⟨⟨toks, hlends⟩, hruns⟩ := h.lends
  exact ⟨hruns, refines_of_lends hlends⟩

/-- A store of zeroed arenas keeps its promise to the first who asks. -/
theorem allowed_first {accepts : Layout → Bool} {base capacity : UInt64} (hgrid : 16 ∣ base.toNat)
    (hfits : base.toNat + (Geometry.standard.arenaSize capacity).toNat ≤ 2 ^ 64)
    (hfatal : (Facade.init ⟨.zeroed accepts base, none⟩ capacity).1 ≠ .fatal) :
    Facade.Allowed ⟨.zeroed accepts base, none⟩ (.init capacity) := by
  refine ⟨hfatal, fun _ arena hclaim => ?_⟩
  obtain ⟨hbase, hsize⟩ := Allocator.claim_zeroed hclaim
  refine ⟨?_, ?_⟩
  · rw [hbase]
    exact hgrid
  · rw [hbase, hsize]
    exact hfits

/-- A block is allocated, a pointer into it is freed in vain, and the next block lies behind the first. -/
def straying : List (RawCall × RawReply) :=
  [(.init 256, .status .ready), (.allocate 20, .pointer (some 4128)), (.free (some 4136), .nothing),
    (.resize none 8, .pointer (some 4192))]

theorem stray_refines : ∃ f, Runs (.zeroed (fun _ => true) 4096) straying f ∧ f.live.keys = {4128, 4192} ∧
    LiveRuns straying (Allocator.isInitialized f) f.live ∧ f.Refines := by
  have hinit := Runs.start.step
    (@allowed_first (fun _ => true) 4096 256 (by decide) (by decide) (by decide +kernel))
  have hallocate := @Runs.step _ _ _ (.allocate 20) hinit trivial
  have hfree := @Runs.step _ _ _ (.free (some 4136)) hallocate trivial
  have hresize := @Runs.step _ _ _ (.resize none 8) hfree trivial
  obtain ⟨trace, hruns, htrace⟩ : ∃ trace, Runs _ trace _ ∧ trace = straying := ⟨_, hresize, by decide +kernel⟩
  subst htrace
  exact ⟨_, hruns, by decide +kernel, hruns.refines⟩

end Facade

end ArenaHeap
