import FizzbeeMbt.RustStore.Gate

/-! The layers of the Rust store over the history of its writes.

The segments answer for the writes up to the durable mark, `immutable_buf` or the
map in flight leads from there to the pending mark, and `buf` from the pending mark
to now. -/

namespace FizzbeeMbt.RustStore

open FizzbeeMbt.Maps FizzbeeMbt.Deltas FizzbeeMbt.Runs

variable {Client Path : Type} [DecidableEq Client] [LinearOrder Path]

/-- The flushes that lose nothing when they stop before their object exists: each
key they carried has been written again. -/
def losslessStop (_ : Trace Client Path) (s : State Client Path) (event : Event Client Path) :
    Prop :=
  isPutLost event = true → ∀ key ∈ s.inFlight.keys, key ∈ s.store.buf.keys

instance (trace : Trace Client Path) (s : State Client Path) (event : Event Client Path) :
    Decidable (losslessStop trace s event) :=
  inferInstanceAs (Decidable (isPutLost event = true → ∀ key ∈ s.inFlight.keys,
    key ∈ s.store.buf.keys))

def tableOf (map : Map Key Value) : Table Key RawValue := fun key => map.lookup key

theorem tableOf_empty {map : Map Key Value} (empty : map.isEmpty = true) (key : Key) :
    tableOf map key = none := (isEmpty_iff map).mp empty key

theorem overlay_above {above below : Map Key Value} (empty : below.isEmpty = true) (key : Key) :
    scan [tableOf above, tableOf below] key = tableOf above key := by
  simp only [scan, tableOf_empty empty key, Option.or_none]

theorem overlay_below {above below : Map Key Value} (empty : above.isEmpty = true) (key : Key) :
    scan [tableOf above, tableOf below] key = tableOf below key := by
  simp only [scan, tableOf_empty empty key, Option.none_or, Option.or_none]

structure Layers (trace : Trace Client Path) (s : State Client Path) : Prop where
  descending : s.objects.keys.Pairwise (· > ·)
  named : ∀ path ∈ s.objects.keys, ∃ last ∈ s.lastUlid, path ≤ last
  segments : Answers (s.objects.keys.map (segmentTable s.objects)) (writes (durableAt trace))
  ordered : durableAt trace <:+ pendingAt trace
  past : pendingAt trace <:+ trace
  apart : s.store.immutable_buf.isEmpty = true ∨ s.inFlight.isEmpty = true
  frozen : Delta (scan [tableOf s.store.immutable_buf, tableOf s.inFlight])
    (writes (durableAt trace)) (writes (pendingAt trace))
  settled : s.store.immutable_buf.isEmpty = true → s.inFlight.isEmpty = true →
    durableAt trace = pendingAt trace
  buffered : Delta (tableOf s.store.buf) (writes (pendingAt trace)) (writes trace)
  drained : s.store.buf.isEmpty = true → writes (pendingAt trace) = writes trace
  putting : ∀ c filename content, s.thread c = .flushPutting filename content →
    content.isEmpty = false ∧ ∀ path ∈ s.objects.keys, path < filename
  lastPut : ∀ c filename content, s.thread c = .flushPutting filename content →
    s.lastUlid = some filename
  clearing : ∀ c, s.thread c = .flushClearing → s.store.immutable_buf.isEmpty = true

omit [DecidableEq Client] [LinearOrder Path] in
theorem writes_quiet (event : Event Client Path) (trace : Trace Client Path)
    (silent : writeOf event = none) : writes (event :: trace) = writes trace := by
  simp [writes, silent]

omit [DecidableEq Client] [LinearOrder Path] in
theorem writes_suffix {early late : Trace Client Path} (order : early <:+ late) :
    writes early <:+ writes late := order.filterMap writeOf

omit [DecidableEq Client] [LinearOrder Path] in
/-- Instants between which nothing was written have seen the same writes. -/
theorem writes_between {early q late : Trace Client Path} (inside : Between early q late)
    (idle : writes early = writes late) : writes q = writes late :=
  inside.observed writeOf idle

/-- Events that neither write nor move entries between the layers. -/
def isQuiet : Event Client Path → Bool
  | .put _ _ _ => false
  | .delete _ _ => false
  | .frozen _ => false
  | event => !carries event

/-- What a quiet step keeps, once what it clears is known to be empty. -/
theorem step_quiet {s s' : State Client Path} {event : Event Client Path}
    (taken : Step s event s') (quiet : isQuiet event = true)
    (cleared : ∀ c, s.thread c = .flushClearing → s.store.immutable_buf.isEmpty = true) :
    s'.store = s.store ∧ s'.objects = s.objects ∧ s'.lastUlid = s.lastUlid ∧
      ∀ c, s'.thread c = .flushClearing → s.store.immutable_buf.isEmpty = true := by
  have clearing : ∀ c, s'.thread c = .flushClearing → s.store.immutable_buf.isEmpty = true := by
    intro c at'
    by_cases acts : c = actor event
    · subst acts
      cases taken with
      | tookNothing c taking nothing => exact take_none s.store nothing
      | _ => simp_all [isQuiet, carries, actor, State.move, State.openGate]
    · rw [step_thread_other taken c acts] at at'
      exact cleared c at'
  cases taken with
  | freezeSkipped c freezing not_frozen empty =>
      exact ⟨freeze_kept s.store not_frozen, rfl, rfl, clearing⟩
  | freezeRefused c freezing not_frozen filled =>
      exact ⟨freeze_kept s.store not_frozen, rfl, rfl, clearing⟩
  | flushReturned c clears =>
      exact ⟨clear_kept s.store (cleared c clears), rfl, rfl, clearing⟩
  | put c key value idle => cases quiet
  | delete c key idle => cases quiet
  | frozen c freezing did_freeze => cases quiet
  | taken c filename taking took increasing => cases quiet
  | landed c putting => cases quiet
  | _ => exact ⟨rfl, rfl, rfl, clearing⟩

omit [DecidableEq Client] [LinearOrder Path] in
theorem marks_quiet (event : Event Client Path) (trace : Trace Client Path)
    (quiet : isQuiet event = true) :
    durableAt (event :: trace) = durableAt trace ∧
      pendingAt (event :: trace) = pendingAt trace := by
  cases event <;> first | exact ⟨rfl, rfl⟩ | cases quiet

def isTaken : Event Client Path → Bool
  | .taken _ => true
  | _ => false

/-- A client that is putting took earlier what it puts. -/
theorem putting_step {s s' : State Client Path} {event : Event Client Path}
    (taken : Step s event s') (untaken : isTaken event = false) {c : Client} {filename : Path}
    {content : Map Key Value} (putting : s'.thread c = .flushPutting filename content) :
    s.thread c = .flushPutting filename content := by
  by_cases acts : c = actor event
  · subst acts
    cases taken with
    | _ => simp_all [actor, isTaken, State.move, State.openGate]
  · exact (step_thread_other taken c acts) ▸ putting

theorem layers_quiet {trace : Trace Client Path} {s s' : State Client Path}
    {event : Event Client Path} (layers : Layers trace s) (gate : Gate s)
    (taken : Step s event s') (quiet : isQuiet event = true) : Layers (event :: trace) s' := by
  have still : carries event = false := by
    cases event <;> first | rfl | cases quiet
  have untaken : isTaken event = false := by
    cases event <;> first | rfl | cases quiet
  obtain ⟨store, objects, lastUlid, clearing⟩ := step_quiet taken quiet layers.clearing
  obtain ⟨durable, pending⟩ := marks_quiet event trace quiet
  have flight : s'.inFlight = s.inFlight := inFlight_step gate taken still
  have written : writes (event :: trace) = writes trace :=
    writes_quiet event trace (by cases event <;> first | rfl | cases quiet)
  constructor
  · rw [objects]
    exact layers.descending
  · rw [objects, lastUlid]
    exact layers.named
  · rw [objects, durable]
    exact layers.segments
  · rw [durable, pending]
    exact layers.ordered
  · rw [pending]
    exact layers.past.trans (List.suffix_cons event trace)
  · rw [store, flight]
    exact layers.apart
  · rw [store, flight, durable, pending]
    exact layers.frozen
  · rw [store, flight, durable, pending]
    exact layers.settled
  · rw [store, pending, written]
    exact layers.buffered
  · rw [store, pending, written]
    exact layers.drained
  · intro c filename content at'
    rw [objects]
    exact layers.putting c filename content (putting_step taken untaken at')
  · intro c filename content at'
    rw [lastUlid]
    exact layers.lastPut c filename content (putting_step taken untaken at')
  · rw [store]
    exact clearing

omit [DecidableEq Client] in
/-- A put or a delete only overlays its write on `buf`. -/
theorem layers_write {trace : Trace Client Path} {s : State Client Path}
    {event : Event Client Path} (layers : Layers trace s) (key : Key) (value : Value)
    (wrote : writeOf event = some (key, value)) :
    Layers (event :: trace)
      { s with store := { s.store with buf := s.store.buf.insert key value } } := by
  have written : writes (event :: trace) = (key, value) :: writes trace := by
    simp [writes, wrote]
  have marks : durableAt (event :: trace) = durableAt trace ∧
      pendingAt (event :: trace) = pendingAt trace := by
    cases event <;> first | exact ⟨rfl, rfl⟩ | cases wrote
  obtain ⟨durable, pending⟩ := marks
  constructor
  · exact layers.descending
  · exact layers.named
  · rw [durable]
    exact layers.segments
  · rw [durable, pending]
    exact layers.ordered
  · rw [pending]
    exact layers.past.trans (List.suffix_cons event trace)
  · exact layers.apart
  · rw [durable, pending]
    exact layers.frozen
  · rw [durable, pending]
    exact layers.settled
  · rw [pending, written]
    apply (layers.buffered.write key value).congr
    intro key'
    exact lookup_insert_if s.store.buf key key' value
  · intro empty
    have absent := (isEmpty_iff _).mp empty key
    simp at absent
  · exact layers.putting
  · exact layers.lastPut
  · exact layers.clearing

omit [DecidableEq Client] [LinearOrder Path] in
theorem inFlight_not_putting {s : State Client Path} (gate : Gate s) {c : Client}
    (holds : (s.thread c).holdsGate = true) (empty : (s.thread c).carried = ∅) :
    s.inFlight.isEmpty = true := by
  rw [gate.inFlight _ holds, empty]
  rfl

/-- While `c` holds the gate, no other client is past it. -/
theorem Gate.others {s s' : State Client Path} (gate : Gate s) {event : Event Client Path}
    (taken : Step s event s') (holds : (s.thread (actor event)).holdsGate = true)
    (c : Client) (differ : c ≠ actor event) : (s'.thread c).holdsGate = false := by
  rw [step_thread_other taken c differ]
  by_contra second
  exact differ (gate.sole (actor event) c holds (by simpa using second))

/-- A freeze moves `buf` into the empty `immutable_buf`; nothing is in flight. -/
theorem layers_frozen {trace : Trace Client Path} {s : State Client Path} {c : Client}
    (layers : Layers trace s) (gate : Gate s) (freezing : s.thread c = .flushFreezing)
    (did_freeze : s.store.freeze_internal.1 = true) :
    Layers (.frozen c :: trace)
      { s.move c .flushTaking with store := s.store.freeze_internal.2 } := by
  have taken : Step s (.frozen c) _ := .frozen c freezing did_freeze
  have holds : (s.thread c).holdsGate = true := by rw [freezing]; rfl
  have grounded : s.inFlight.isEmpty = true :=
    inFlight_not_putting gate holds (by rw [freezing]; rfl)
  have flight := inFlight_step gate taken rfl
  obtain ⟨moved, filled, empty⟩ := freeze_moved s.store did_freeze
  have durable : durableAt (.frozen c :: trace) = durableAt trace := rfl
  have pending : pendingAt (.frozen c :: trace) = trace := rfl
  have settled := layers.settled empty grounded
  constructor
  · exact layers.descending
  · exact layers.named
  · exact layers.segments
  · rw [durable, pending, settled]
    exact layers.past
  · exact List.suffix_cons _ trace
  · rw [flight]
    exact Or.inr grounded
  · rw [flight, durable, pending, settled, moved]
    exact layers.buffered.congr (overlay_above grounded)
  · intro drained
    rw [moved] at drained
    exact absurd drained (by simp [filled])
  · rw [pending, moved]
    exact delta_refl _ _ (fun key => rfl)
  · intro _
    rfl
  · intro c' filename content at'
    exact layers.putting c' filename content (putting_step taken rfl at')
  · intro c' filename content at'
    exact layers.lastPut c' filename content (putting_step taken rfl at')
  · intro c' at'
    by_cases acts : c' = c
    · subst acts
      simp at at'
    · have free := gate.others taken holds c' acts
      rw [at'] at free
      cases free

/-- The take moves the non-empty `immutable_buf` into flight, under a new name. -/
theorem layers_taken {trace : Trace Client Path} {s : State Client Path} {c : Client}
    {filename : Path} {content : Map Key Value} {store : EmbeddedKvStore}
    (layers : Layers trace s) (gate : Gate s) (taking : s.thread c = .flushTaking)
    (took : s.store.take_immutable = some (content, store))
    (increasing : ∀ last ∈ s.lastUlid, last < filename) :
    Layers (.taken c :: trace)
      { s.move c (.flushPutting filename content) with
        store := store
        lastUlid := some filename } := by
  have taken : Step s (.taken c) _ := .taken c filename taking took increasing
  have holds : (s.thread c).holdsGate = true := by rw [taking]; rfl
  have grounded : s.inFlight.isEmpty = true :=
    inFlight_not_putting gate holds (by rw [taking]; rfl)
  have flight := (gate_step gate taken).inFlight c (by simp [Thread.holdsGate])
  obtain ⟨rfl, rfl, filled⟩ := take_moved s.store store content took
  simp only [move_thread_self, Thread.carried] at flight
  have below : ∀ path ∈ s.objects.keys, path < filename := by
    intro path member
    obtain ⟨last, found, bound⟩ := layers.named path member
    exact lt_of_le_of_lt bound (increasing last found)
  constructor
  · exact layers.descending
  · intro path member
    exact ⟨filename, rfl, le_of_lt (below path member)⟩
  · exact layers.segments
  · exact layers.ordered
  · exact layers.past.trans (List.suffix_cons _ trace)
  · exact Or.inl rfl
  · rw [flight]
    apply layers.frozen.congr
    intro key
    exact (overlay_below rfl key).trans (overlay_above grounded key).symm
  · intro _ empty
    rw [flight] at empty
    exact absurd empty (by simp [filled])
  · exact layers.buffered
  · exact layers.drained
  · intro c' name map at'
    by_cases acts : c' = c
    · subst acts
      simp only [move_thread_self, Thread.flushPutting.injEq] at at'
      obtain ⟨rfl, rfl⟩ := at'
      exact ⟨filled, below⟩
    · have free := gate.others taken holds c' acts
      rw [at'] at free
      cases free
  · intro c' name map at'
    by_cases acts : c' = c
    · subst acts
      simp only [move_thread_self, Thread.flushPutting.injEq] at at'
      exact congrArg some at'.1
    · have free := gate.others taken holds c' acts
      rw [at'] at free
      cases free
  · intro c' at'
    rfl

omit [DecidableEq Client] in
/-- A scan of the listed objects answers up to the durable mark. -/
theorem Layers.get_listed {trace : Trace Client Path} {s : State Client Path}
    (layers : Layers trace s) (key : Key) (listing : List Path)
    (lists : ListsAscending s.objects listing) :
    get_listed (.ok listing) (fetch s.objects) key =
      .ok (latest (writes (durableAt trace)) key).join := by
  calc
    RustStore.get_listed (.ok listing) (fetch s.objects) key =
        scan_segments (fetch s.objects) key s.objects.keys :=
      congrArg _ (listing_unique s.objects listing layers.descending lists)
    _ = .ok (scan (s.objects.keys.map (segmentTable s.objects)) key).join :=
      scan_segments_eq_scan s.objects key s.objects.keys
    _ = .ok (latest (writes (durableAt trace)) key).join := by
      rw [layers.segments key]

omit [DecidableEq Client] in
/-- What a client is putting is all that is in flight, and nothing else is frozen. -/
theorem Layers.flight {trace : Trace Client Path} {s : State Client Path}
    (layers : Layers trace s) (gate : Gate s) {c : Client} {filename : Path}
    {content : Map Key Value} (putting : s.thread c = .flushPutting filename content) :
    s.inFlight = content ∧ s.store.immutable_buf.isEmpty = true := by
  have flight : s.inFlight = content := by
    rw [gate.inFlight c (by rw [putting]; rfl), putting]
    rfl
  refine ⟨flight, ?_⟩
  rcases layers.apart with empty | grounded
  · exact empty
  · rw [flight, (layers.putting c filename content putting).1] at grounded
    cases grounded

omit [DecidableEq Client] in
/-- Once all of what is in flight has been written again, `buf` leads on from the
segments. -/
theorem Layers.rewritten {trace : Trace Client Path} {s : State Client Path}
    (layers : Layers trace s) (empty : s.store.immutable_buf.isEmpty = true)
    (rewritten : ∀ key ∈ s.inFlight.keys, key ∈ s.store.buf.keys) :
    Delta (tableOf s.store.buf) (writes (durableAt trace)) (writes trace) := by
  apply layers.frozen.absorb layers.buffered
  intro key missed
  have outside : key ∉ s.store.buf.keys := fun member =>
    (AList.lookup_eq_none.mp missed) (AList.mem_keys.mpr member)
  have absent : tableOf s.inFlight key = none := by
    apply AList.lookup_eq_none.mpr
    intro member
    exact outside (rewritten key (AList.mem_keys.mp member))
  rw [overlay_below empty, absent]

/-- The put appends the newest segment, which answers up to the pending mark. -/
theorem layers_landed {trace : Trace Client Path} {s : State Client Path} {c : Client}
    {filename : Path} {content : Map Key Value} (layers : Layers trace s) (gate : Gate s)
    (putting : s.thread c = .flushPutting filename content) :
    Layers (.landed c filename :: trace)
      { s.move c .flushClearing with objects := s.objects.insert filename content } := by
  have taken : Step s (.landed c filename) _ := .landed c putting
  have holds : (s.thread c).holdsGate = true := by rw [putting]; rfl
  have landed := (gate_step gate taken).inFlight c (by simp [Thread.holdsGate])
  simp only [move_thread_self, Thread.carried] at landed
  obtain ⟨filled, below⟩ := layers.putting c filename content putting
  obtain ⟨flight, empty⟩ := layers.flight gate putting
  have fresh : filename ∉ s.objects.keys := fun member => lt_irrefl _ (below filename member)
  have keys := keys_insert_fresh s.objects filename content fresh
  have nobody (c' : Client) (name : Path) (map : Map Key Value)
      (at' : (s.move c .flushClearing).thread c' = .flushPutting name map) : False := by
    by_cases acts : c' = c
    · subst acts
      simp at at'
    · have free := gate.others taken holds c' acts
      rw [at'] at free
      cases free
  constructor
  · rw [keys, List.pairwise_cons]
    exact ⟨below, layers.descending⟩
  · intro path member
    rw [keys, List.mem_cons] at member
    rcases member with rfl | member
    · exact ⟨path, layers.lastPut c path content putting, le_refl path⟩
    · exact layers.named path member
  · rw [keys, List.map_cons, segmentTable_self,
      segmentTable_insert s.objects filename content fresh _ (fun p member => member)]
    apply layers.segments.push
    apply layers.frozen.congr
    intro key
    rw [flight]
    exact (overlay_below empty key).symm
  · exact List.suffix_refl _
  · exact layers.past.trans (List.suffix_cons _ trace)
  · exact Or.inl empty
  · rw [landed]
    exact delta_refl _ _ (overlay_below empty)
  · intro _ _
    rfl
  · exact layers.buffered
  · exact layers.drained
  · intro c' name map at'
    exact (nobody c' name map at').elim
  · intro c' name map at'
    exact (nobody c' name map at').elim
  · intro _ _
    exact empty

/-- A flush that stops without its object drops what it carried. Nothing is lost
when all of it has been written again. -/
theorem layers_lost {trace : Trace Client Path} {s s' : State Client Path}
    {event : Event Client Path} {filename : Path} {content : Map Key Value}
    (layers : Layers trace s) (gate : Gate s) (taken : Step s event s')
    (lost : isPutLost event = true)
    (putting : s.thread (actor event) = .flushPutting filename content)
    (stopped : s' = (s.move (actor event) .idle).openGate)
    (rewritten : ∀ key ∈ s.inFlight.keys, key ∈ s.store.buf.keys) :
    Layers (event :: trace) s' := by
  have holds : (s.thread (actor event)).holdsGate = true := by rw [putting]; rfl
  obtain ⟨filled, below⟩ := layers.putting _ filename content putting
  obtain ⟨flight, empty⟩ := layers.flight gate putting
  have marks : durableAt (event :: trace) = durableAt trace ∧
      pendingAt (event :: trace) = durableAt trace := by
    cases event <;> first | exact ⟨rfl, rfl⟩ | cases lost
  obtain ⟨durable, pending⟩ := marks
  have written : writes (event :: trace) = writes trace :=
    writes_quiet event trace (by cases event <;> first | rfl | cases lost)
  have free (c : Client) : (s'.thread c).holdsGate = false := by
    by_cases acts : c = actor event
    · subst acts
      simp [stopped, State.openGate, Thread.holdsGate]
    · exact gate.others taken holds c acts
  have grounded : s'.inFlight = ∅ := by
    rw [stopped]
    rfl
  have kept : s'.store = s.store ∧ s'.objects = s.objects ∧ s'.lastUlid = s.lastUlid := by
    rw [stopped]
    exact ⟨rfl, rfl, rfl⟩
  obtain ⟨store, objects, lastUlid⟩ := kept
  constructor
  · rw [objects]
    exact layers.descending
  · rw [objects, lastUlid]
    exact layers.named
  · rw [objects, durable]
    exact layers.segments
  · rw [durable, pending]
  · rw [pending]
    exact (layers.ordered.trans layers.past).trans (List.suffix_cons _ trace)
  · rw [store]
    exact Or.inl empty
  · rw [store, grounded, durable, pending]
    exact delta_refl _ _ (overlay_below empty)
  · intro _ _
    rw [durable, pending]
  · rw [store, pending, written]
    exact layers.rewritten empty rewritten
  · intro drained
    rw [store] at drained
    obtain ⟨key, carried⟩ := exists_mem_keys s.inFlight (flight ▸ filled)
    exact absurd (rewritten key carried) (not_mem_keys_of_isEmpty _ drained key)
  · intro c name map at'
    have idle := free c
    rw [at'] at idle
    cases idle
  · intro c name map at'
    have idle := free c
    rw [at'] at idle
    cases idle
  · intro c at'
    have idle := free c
    rw [at'] at idle
    cases idle

theorem layers_step {trace : Trace Client Path} {s s' : State Client Path}
    {event : Event Client Path} (layers : Layers trace s) (gate : Gate s)
    (lossless : losslessStop trace s event) (taken : Step s event s') :
    Layers (event :: trace) s' := by
  by_cases quiet : isQuiet event = true
  · exact layers_quiet layers gate taken quiet
  · cases taken with
    | put c key value idle => exact layers_write layers key (some value) rfl
    | delete c key idle => exact layers_write layers key none rfl
    | frozen c freezing did_freeze => exact layers_frozen layers gate freezing did_freeze
    | taken c filename taking took increasing =>
        exact layers_taken layers gate taking took increasing
    | landed c putting => exact layers_landed layers gate putting
    | putFailed c putting =>
        exact layers_lost layers gate (.putFailed c putting) rfl putting rfl (lossless rfl)
    | putDropped c putting =>
        exact layers_lost layers gate (.putDropped c putting) rfl putting rfl (lossless rfl)
    | _ => exact absurd rfl quiet

theorem layers_run {trace : Trace Client Path} {s : State Client Path}
    (run : Run system losslessStop trace s) : Layers trace s := by
  apply run.invariant (fun trace s => Layers trace s)
  · intro s start
    subst start
    constructor
    · exact List.Pairwise.nil
    · intro path member
      cases member
    · exact answers_nil
    · exact List.suffix_refl _
    · exact List.suffix_refl _
    · exact Or.inl rfl
    · exact delta_refl _ _ (fun key => rfl)
    · intro _ _
      rfl
    · exact delta_refl _ _ (fun key => rfl)
    · intro _
      rfl
    · intro c filename content at'
      cases at'
    · intro c filename content at'
      cases at'
    · intro c at'
      cases at'
  · intro _ _ _ _ before layers lossless taken
    exact layers_step layers (gate_run before) lossless taken

end FizzbeeMbt.RustStore
