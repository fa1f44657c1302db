import FizzbeeMbt.FizzStore.DirtyRead
import FizzbeeMbt.Lib.Refinement
import FizzbeeMbt.RustStore.DurableReads

/-! The Rust store with concurrent clients refines the specification: its runs without
faults are runs of `embedded_kvstore.fizz`, and its Remote gets answer as `get` does
there. Its Memory gets do as long as none lists while its key is in flight, for the
specification keeps in `immutable_buf` what the store has already taken out. -/

namespace FizzbeeMbt.RustStore

open FizzbeeMbt.Maps FizzbeeMbt.Deltas FizzbeeMbt.Runs

/-- The specification over the keys and values of the store; `none` is its `NOT_FOUND`. -/
abbrev SpecState := FizzStore.State Key Value

abbrev SpecEvent := FizzStore.Event Key Value

abbrev specification : System SpecState SpecEvent := FizzStore.system none

variable {Client Path : Type}

/-- The actions of the specification that a step of the store amounts to, newest
first. Moving the frozen map out of `immutable_buf` is none. -/
def specEvents : Event Client Path → List SpecEvent
  | .put _ key value => [.put key (some value)]
  | .delete _ key => [.put key none]
  | .frozen _ => [.freeze]
  | .freezeSkipped _ => [.freeze]
  | .tookNothing _ => [.write]
  | .landed _ _ => [.write]
  | .flushReturned _ => [.clear]
  | _ => []

/-- A flush that has frozen and not yet returned. -/
def Thread.pastFreeze : Thread Path → Bool
  | .flushTaking => true
  | .flushPutting _ _ => true
  | .flushClearing => true
  | _ => false

/-- The flush point and the `immutable_buf` of the specification that a running flush
stands for. -/
def Thread.Represented (thread : Thread Path) (store : EmbeddedKvStore) (a : SpecState) :
    Prop :=
  match thread with
  | .flushTaking => a.flush = .frozen ∧ a.writer.immutable_buf = store.immutable_buf
  | .flushPutting _ content => a.flush = .frozen ∧ a.writer.immutable_buf = content
  | .flushClearing => a.flush = .written
  | _ => True

theorem represented_outside {thread : Thread Path} {store : EmbeddedKvStore} {a : SpecState}
    (outside : thread.pastFreeze = false) : thread.Represented store a := by
  cases thread <;> trivial

/-- The contents of the files, newest first. -/
def contents (store : FizzStore.Storage Key Value) (n : Nat) : List (Map Key Value) :=
  (List.range n).reverse.map fun i => store.Read (FizzStore.filename (i + 1))

theorem contents_succ (store : FizzStore.Storage Key Value) (n : Nat) :
    contents store (n + 1) = store.Read (FizzStore.filename (n + 1)) :: contents store n := by
  simp [contents, List.range_succ]

theorem contents_write (store : FizzStore.Storage Key Value) (content : Map Key Value)
    (n : Nat) : contents (store.Write (FizzStore.filename (n + 1)) content) (n + 1) =
      content :: contents store n := by
  rw [contents_succ, FizzStore.read_write_same]
  apply congrArg (content :: ·)
  apply List.map_congr_left
  intro i member
  have below : i < n := by simpa using member
  have differ : FizzStore.filename (i + 1) ≠ FizzStore.filename (n + 1) :=
    fun same => absurd (FizzStore.filename_injective same) (by omega)
  exact FizzStore.read_write_other _ _ _ _ differ

theorem scan_contents (store : FizzStore.Storage Key Value) (key : Key) (n : Nat) :
    scan ((contents store n).map tableOf) key = store.scan key n := by
  induction n with
  | zero => rfl
  | succ n ih =>
      rw [contents_succ, List.map_cons, FizzStore.scan_succ, ← ih]
      rfl

/-- A state of the specification stands for a state of the store. The segments, newest
first, are the files, and a frozen map is in `immutable_buf` or in flight. -/
structure Represents (trace : Trace Client Path) (s : State Client Path) (a : SpecState) :
    Prop where
  last_put : ∀ key, a._last_put.lookup key = latest (writes trace) key
  buf : a.writer.buf = s.store.buf
  segments : s.objects.entries.map Sigma.snd = contents a.store (a.writer.next_index - 1)
  idle : (∀ c, (s.thread c).pastFreeze = false) → a.flush = .idle
  flushing : ∀ c, (s.thread c).Represented s.store a

theorem represents_initial :
    Represents ([] : Trace Client Path) initial FizzStore.Init where
  last_put _ := rfl
  buf := rfl
  segments := rfl
  idle _ := rfl
  flushing _ := trivial

section Steps

variable [DecidableEq Client] [LinearOrder Path] {trace : Trace Client Path}
  {s s' : State Client Path} {a : SpecState}

/-- The steps that show nothing and leave every flush past its freeze where it is. -/
def isSilent : Event Client Path → Bool
  | .getCalled _ _ _ => true
  | .bufMissed _ => true
  | .immutableMissed _ => true
  | .listed _ => true
  | .segmentPassed _ => true
  | .getReturned _ _ _ _ => true
  | .flushCalled _ => true
  | .gateTaken _ => true
  | _ => false

theorem silent_step {event : Event Client Path} (taken : Step s event s')
    (silent : isSilent event = true) :
    s'.store = s.store ∧ s'.objects = s.objects ∧
      ∀ c, (s'.thread c).pastFreeze = true ∨ (s.thread c).pastFreeze = true →
        s'.thread c = s.thread c := by
  refine ⟨?_, ?_, ?_⟩
  · cases taken <;> first | rfl | cases silent
  · cases taken <;> first | rfl | cases silent
  · intro c past
    by_cases acts : c = actor event
    · subst acts
      cases taken with
      | getCalled c key level idle =>
          cases level <;> simp_all [actor, State.move, Thread.pastFreeze, getStart]
      | _ => simp_all [isSilent, actor, State.move, Thread.pastFreeze]
    · exact step_thread_other taken c acts

theorem represents_silent {event : Event Client Path} (represents : Represents trace s a)
    (taken : Step s event s') (silent : isSilent event = true) :
    Represents (event :: trace) s' a := by
  obtain ⟨store, objects, unmoved⟩ := silent_step taken silent
  have unwritten : writeOf event = none := by
    cases event <;> first | rfl | cases silent
  constructor
  · rw [writes_quiet event trace unwritten]
    exact represents.last_put
  · rw [store]
    exact represents.buf
  · rw [objects]
    exact represents.segments
  · intro outside
    apply represents.idle
    intro c
    by_contra past
    have held : (s.thread c).pastFreeze = true := by simpa using past
    rw [← unmoved c (Or.inr held), outside c] at held
    cases held
  · intro c
    rw [store]
    cases past : (s'.thread c).pastFreeze with
    | false => exact represented_outside past
    | true =>
        rw [unmoved c (Or.inl past)]
        exact represents.flushing c

omit [DecidableEq Client] [LinearOrder Path] in
theorem represents_write {event : Event Client Path} (represents : Represents trace s a)
    (key : Key) (value : Value) (wrote : writeOf event = some (key, value)) :
    Represents (event :: trace)
      { s with store := { s.store with buf := s.store.buf.insert key value } }
      { a with writer := a.writer.Put key value, _last_put := a._last_put.insert key value } := by
  have written : writes (event :: trace) = (key, value) :: writes trace := by
    simp [writes, wrote]
  constructor
  · intro key'
    rw [written, latest_cons, lookup_insert_if, represents.last_put key']
  · simp only [FizzStore.Writer.Put, represents.buf]
  · exact represents.segments
  · exact represents.idle
  · intro c
    have point := represents.flushing c
    cases at' : s.thread c <;> rw [at'] at point <;> exact point

omit [DecidableEq Client] [LinearOrder Path] in
/-- While `c` is at the gate before its freeze, no flush is past its own. -/
theorem none_pastFreeze (gate : Gate s) {c : Client} (freezing : s.thread c = .flushFreezing)
    (other : Client) : (s.thread other).pastFreeze = false := by
  by_contra past
  have second : (s.thread other).holdsGate = true := by
    cases at' : s.thread other <;> simp_all [Thread.pastFreeze, Thread.holdsGate]
  have same := gate.sole c other (by rw [freezing]; rfl) second
  rw [same, freezing] at past
  exact past rfl

/-- A step of a flush that is past the gate: the other clients are elsewhere. -/
theorem represents_flush {event : Event Client Path} {b : SpecState}
    (represents : Represents trace s a) (gate : Gate s) (taken : Step s event s')
    (holds : (s.thread (actor event)).holdsGate = true) (unwritten : writeOf event = none)
    (last_put : b._last_put = a._last_put) (buf : b.writer.buf = s'.store.buf)
    (segments : s'.objects.entries.map Sigma.snd = contents b.store (b.writer.next_index - 1))
    (idle : (s'.thread (actor event)).pastFreeze = false → b.flush = .idle)
    (flushing : (s'.thread (actor event)).Represented s'.store b) :
    Represents (event :: trace) s' b := by
  constructor
  · rw [writes_quiet event trace unwritten, last_put]
    exact represents.last_put
  · exact buf
  · exact segments
  · intro outside
    exact idle (outside _)
  · intro c
    by_cases acts : c = actor event
    · exact acts ▸ flushing
    · apply represented_outside
      have free := gate.others taken holds c acts
      cases at' : s'.thread c <;> simp_all [Thread.pastFreeze, Thread.holdsGate]

theorem eq_empty {map : Map Key Value} (empty : map.isEmpty = true) : map = ∅ :=
  AList.ext (List.isEmpty_iff.mp empty)

/-- Without faults the only frozen map at a freeze is the one it freezes. -/
theorem thawed_at_freeze (run : Run system faultFree trace s) {c : Client}
    (freezing : s.thread c = .flushFreezing) : s.store.immutable_buf = ∅ := by
  rcases (owned_run run).frozen with empty | ⟨other, taking, -⟩
  · exact eq_empty empty
  · have same := (gate_run run).sole c other (by rw [freezing]; rfl) (by rw [taking]; rfl)
    rw [same, freezing] at taking
    cases taking

theorem represents_frozen {c : Client} (represents : Represents trace s a) (gate : Gate s)
    (layered : FizzStore.Layered a) (freezing : s.thread c = .flushFreezing)
    (did_freeze : s.store.freeze_internal.1 = true) :
    Represents (.frozen c :: trace)
      { s.move c .flushTaking with store := s.store.freeze_internal.2 }
      { a with writer := a.writer.freeze, flush := .frozen } := by
  obtain ⟨moved, filled, -⟩ := freeze_moved s.store did_freeze
  have point := represents.idle (none_pastFreeze gate freezing)
  have froze : a.writer.freeze = { a.writer with immutable_buf := s.store.buf, buf := ∅ } := by
    simp [FizzStore.Writer.freeze, represents.buf, filled, layered.cold point]
  rw [froze]
  apply represents_flush represents gate (.frozen c freezing did_freeze)
  · simp [actor, freezing, Thread.holdsGate]
  · rfl
  · rfl
  · simp [moved]
  · exact represents.segments
  · simp [actor, Thread.pastFreeze]
  · simp [actor, Thread.Represented, moved]

theorem represents_skipped {c : Client} (represents : Represents trace s a)
    (run : Run system faultFree trace s) (layered : FizzStore.Layered a)
    (freezing : s.thread c = .flushFreezing) (not_frozen : s.store.freeze_internal.1 = false)
    (empty : s.store.buf.isEmpty = true) :
    Represents (.freezeSkipped c :: trace)
      { s.move c .flushTaking with store := s.store.freeze_internal.2 }
      { a with writer := a.writer.freeze, flush := .frozen } := by
  have gate := gate_run run
  have kept := freeze_kept s.store not_frozen
  have point := represents.idle (none_pastFreeze gate freezing)
  have cold := eq_empty (layered.cold point)
  have froze : a.writer.freeze = a.writer := by
    simp [FizzStore.Writer.freeze, represents.buf, empty]
  rw [froze]
  apply represents_flush represents gate (.freezeSkipped c freezing not_frozen empty)
  · simp [actor, freezing, Thread.holdsGate]
  · rfl
  · rfl
  · simp [kept, represents.buf]
  · exact represents.segments
  · simp [actor, Thread.pastFreeze]
  · simp [actor, Thread.Represented, kept, cold, thawed_at_freeze run freezing]

/-- What the flush takes out of `immutable_buf` stays in that of the specification. -/
theorem represents_taken {c : Client} {filename : Path} {content : Map Key Value}
    {store : EmbeddedKvStore} (represents : Represents trace s a) (gate : Gate s)
    (taking : s.thread c = .flushTaking)
    (took : s.store.take_immutable = some (content, store))
    (increasing : ∀ last ∈ s.lastUlid, last < filename) :
    Represents (.taken c :: trace)
      { s.move c (.flushPutting filename content) with
        store := store
        lastUlid := some filename } a := by
  obtain ⟨rfl, rfl, -⟩ := take_moved s.store store content took
  have point := represents.flushing c
  simp only [taking, Thread.Represented] at point
  apply represents_flush represents gate (.taken c filename taking took increasing)
  · simp [actor, taking, Thread.holdsGate]
  · rfl
  · rfl
  · exact represents.buf
  · exact represents.segments
  · simp [actor, Thread.pastFreeze]
  · simpa [actor, Thread.Represented] using point

theorem represents_nothing {c : Client} (represents : Represents trace s a) (gate : Gate s)
    (taking : s.thread c = .flushTaking) (nothing : s.store.take_immutable = none) :
    Represents (.tookNothing c :: trace) (s.move c .flushClearing)
      { a with
        writer := (a.writer.write a.store).1
        store := (a.writer.write a.store).2
        flush := .written } := by
  have point := represents.flushing c
  simp only [taking, Thread.Represented] at point
  have wrote : a.writer.write a.store = (a.writer, a.store) := by
    simp [FizzStore.Writer.write, point.2, take_none s.store nothing]
  rw [wrote]
  apply represents_flush represents gate (.tookNothing c taking nothing)
  · simp [actor, taking, Thread.holdsGate]
  · rfl
  · rfl
  · exact represents.buf
  · exact represents.segments
  · simp [actor, Thread.pastFreeze]
  · simp [actor, Thread.Represented]

/-- The segment that lands is the file the specification writes. -/
theorem represents_landed {c : Client} {filename : Path} {content : Map Key Value}
    (represents : Represents trace s a) (gate : Gate s) (layers : Layers trace s)
    (layered : FizzStore.Layered a) (putting : s.thread c = .flushPutting filename content) :
    Represents (.landed c filename :: trace)
      { s.move c .flushClearing with objects := s.objects.insert filename content }
      { a with
        writer := (a.writer.write a.store).1
        store := (a.writer.write a.store).2
        flush := .written } := by
  obtain ⟨filled, below⟩ := layers.putting c filename content putting
  have fresh : filename ∉ s.objects := fun member =>
    lt_irrefl _ (below filename (AList.mem_keys.mp member))
  have point := represents.flushing c
  simp only [putting, Thread.Represented] at point
  obtain ⟨n, number⟩ := Nat.exists_eq_add_of_le' layered.numbered
  have segments := represents.segments
  simp only [number, Nat.add_sub_cancel] at segments
  have wrote : a.writer.write a.store =
      ({ a.writer with next_index := n + 1 + 1 },
        a.store.Write (FizzStore.filename (n + 1)) content) := by
    simp [FizzStore.Writer.write, point.2, filled, number]
  rw [wrote]
  apply represents_flush represents gate (.landed c putting)
  · simp [actor, putting, Thread.holdsGate]
  · rfl
  · rfl
  · exact represents.buf
  · simp only [Nat.add_sub_cancel, contents_write, AList.entries_insert_of_notMem fresh,
      List.map_cons, segments]
  · simp [actor, Thread.pastFreeze]
  · simp [actor, Thread.Represented]

theorem represents_returned {c : Client} (represents : Represents trace s a) (gate : Gate s)
    (clearing : s.thread c = .flushClearing) :
    Represents (.flushReturned c :: trace)
      { (s.move c .idle).openGate with store := s.store.clear_immutable }
      { a with writer := a.writer.clear, flush := .idle } := by
  apply represents_flush represents gate (.flushReturned c clearing)
  · simp [actor, clearing, Thread.holdsGate]
  · rfl
  · rfl
  · exact represents.buf
  · exact represents.segments
  · intro _
    rfl
  · simp [actor, State.openGate, Thread.Represented]

theorem simulates_specification :
    Simulation (system : System (State Client Path) (Event Client Path)) faultFree specification
      specEvents Represents where
  starts := by
    rintro s rfl
    exact ⟨FizzStore.Init, rfl, represents_initial⟩
  steps := by
    intro trace s event s' a before upto represents admitted taken
    have gate := gate_run before
    have layered := FizzStore.layered_run upto
    have step := taken
    cases taken with
    | put c key value idle =>
        exact ⟨_, one _ (.put key (some value)), represents_write represents key (some value) rfl⟩
    | delete c key idle =>
        exact ⟨_, one _ (.put key none), represents_write represents key none rfl⟩
    | frozen c freezing did_freeze =>
        have point := represents.idle (none_pastFreeze gate freezing)
        exact ⟨_, one _ (.freeze point),
          represents_frozen represents gate layered freezing did_freeze⟩
    | freezeSkipped c freezing not_frozen empty =>
        have point := represents.idle (none_pastFreeze gate freezing)
        exact ⟨_, one _ (.freeze point),
          represents_skipped represents before layered freezing not_frozen empty⟩
    | freezeRefused c freezing not_frozen filled =>
        have empty : s.store.immutable_buf.isEmpty = true := by
          rw [thawed_at_freeze before freezing]
          rfl
        have froze : s.store.freeze_internal.1 = true := by
          simp [EmbeddedKvStore.freeze_internal, filled, empty]
        rw [not_frozen] at froze
        cases froze
    | tookNothing c taking nothing =>
        have point := represents.flushing c
        simp only [taking, Thread.Represented] at point
        exact ⟨_, one _ (.write point.1), represents_nothing represents gate taking nothing⟩
    | taken c filename taking took increasing =>
        exact ⟨a, stay _ a, represents_taken represents gate taking took increasing⟩
    | landed c putting =>
        have point := represents.flushing c
        simp only [putting, Thread.Represented] at point
        exact ⟨_, one _ (.write point.1),
          represents_landed represents gate (layers_run (lossless_run before)) layered putting⟩
    | flushReturned c clearing =>
        have point := represents.flushing c
        simp only [clearing, Thread.Represented] at point
        exact ⟨_, one _ (.clear point), represents_returned represents gate clearing⟩
    | putFailed c putting => cases admitted.1
    | putDropped c putting => cases admitted.1
    | dropped c awaiting => cases admitted.2
    | droppedWaiting c called => cases admitted.2
    | _ => exact ⟨a, stay _ a, represents_silent represents step rfl⟩

end Steps

section Refinement

variable [DecidableEq Client] [LinearOrder Path] {trace : Trace Client Path}
  {s : State Client Path}

def specTrace (trace : Trace Client Path) : List SpecEvent := trace.flatMap specEvents

/-- What `get` of the specification returns, as the store reports it. -/
def specGet (a : SpecState) (key : Key) (level : DurabilityLevel) : Except IoError Value :=
  .ok (a.writer.get none a.store key (level = .Memory))

theorem represented (run : Run system faultFree trace s) :
    ∃ a, Run specification anyStep (specTrace trace) a ∧ Represents trace s a :=
  simulates_specification.run run

theorem segmentTable_entries (objects : ObjectStore Path) :
    objects.keys.map (segmentTable objects) = (objects.entries.map Sigma.snd).map tableOf := by
  simp only [AList.keys, List.keys, List.map_map]
  apply List.map_congr_left
  intro entry member
  have held : objects.lookup entry.1 = some entry.2 := AList.mem_lookup_iff.mpr member
  funext key
  simp [segmentTable, tableOf, held]

theorem join_eq_getD (found : Option Value) : found.join = found.getD none := by
  cases found <;> rfl

omit [DecidableEq Client] [LinearOrder Path] in
theorem specGet_memory {a : SpecState} (upto : Run specification anyStep (specTrace trace) a)
    (represents : Represents trace s a) (key : Key) :
    specGet a key .Memory = .ok (latest (writes trace) key).join := by
  have last := (FizzStore.layered_run upto).last key
  rw [represents.last_put key] at last
  simp only [specGet, decide_true, FizzStore.get_dirty, ← last, join_eq_getD]

omit [DecidableEq Client] in
theorem specGet_remote {a : SpecState} (represents : Represents trace s a)
    (layers : Layers trace s) (key : Key) :
    specGet a key .Remote = .ok (latest (writes (durableAt trace)) key).join := by
  have files : a.store.scan key (a.writer.next_index - 1) =
      latest (writes (durableAt trace)) key := by
    rw [← layers.segments key, segmentTable_entries, represents.segments, scan_contents]
  rw [← files, join_eq_getD]
  rfl

/-- At an instant of the run the specification has come as far as the store. -/
theorem represented_at (run : Run system faultFree trace s) {q : Trace Client Path}
    (upto : q <:+ trace) : ∃ s a, Run specification anyStep (specTrace q) a ∧
      Represents q s a ∧ Layers q s := by
  obtain ⟨s, before⟩ := run.past upto
  obtain ⟨a, specified, represents⟩ := represented before
  exact ⟨s, a, specified, represents, layers_run (lossless_run before)⟩

theorem remote_specified (run : Run system faultFree trace s) (get : GetCall .Remote trace) :
    ∃ q a, Between get.began q get.past ∧ Run specification anyStep (specTrace q) a ∧
      get.answer = specGet a get.key .Remote := by
  obtain ⟨inside, answers⟩ := remote_answer (lossless_run run) get
  have within : get.past <:+ trace := (List.suffix_cons _ _).trans get.returned
  obtain ⟨s', a, specified, represents, layers⟩ := represented_at run (inside.2.trans within)
  refine ⟨get.listed, a, inside, specified, ?_⟩
  rw [specGet_remote represents layers]
  exact answers

theorem dirty_run (run : Run system unexposed trace s) (c : Client) : Dirty trace s c := by
  apply run.invariant (fun trace s => Dirty trace s c)
  · rintro s rfl
    exact dirty_initial c
  · intro trace s event s' before dirty admitted taken
    have faultless : Run system faultFree trace s :=
      before.refine fun _ _ _ _ _ admitted _ => admitted.1
    exact dirty_step (layers_run (lossless_run faultless)) (gate_run before) dirty taken
      admitted.1.1 admitted.2

theorem memory_specified (run : Run system unexposed trace s) (get : GetCall .Memory trace) :
    ∃ q a, Between get.began q get.past ∧ Run specification anyStep (specTrace q) a ∧
      get.answer = specGet a get.key .Memory := by
  have faultless {trace : Trace Client Path} {s : State Client Path}
      (run : Run system unexposed trace s) : Run system faultFree trace s :=
    run.refine fun _ _ _ _ _ admitted _ => admitted.1
  obtain ⟨c, key, answer, past, returned⟩ := get
  obtain ⟨s₁, s₂, before, -, taken⟩ := run.emitted returned
  have lossless := lossless_run (faultless before)
  obtain ⟨q, inside, answers⟩ :=
    dirty_answer (layers_run lossless) (reads_run lossless) (dirty_run before c) taken
  have within : past <:+ trace := (List.suffix_cons _ _).trans returned
  obtain ⟨s', a, specified, represents, -⟩ :=
    represented_at (faultless run) (inside.2.trans within)
  refine ⟨q, a, inside, specified, ?_⟩
  rw [specGet_memory specified represents]
  exact answers

/-- The store refines the specification as far as durable reads tell. Its run, with any
number of clients, without errors of the object store and without dropped futures, is
one of the specification, whose files are its segments; each Remote get answers as a
durable `get` of the specification does at an instant of its call; and as long as no
Memory get lists while its key is in flight, each Memory get answers as a dirty one. -/
theorem durable_reads_refine_specification (run : Run system faultFree trace s) :
    (∃ a, Run specification anyStep (specTrace trace) a ∧ Represents trace s a) ∧
      (∀ get : GetCall .Remote trace, ∃ q a, Between get.began q get.past ∧
        Run specification anyStep (specTrace q) a ∧ get.answer = specGet a get.key .Remote) ∧
      (Run system unexposed trace s → ∀ get : GetCall .Memory trace,
        ∃ q a, Between get.began q get.past ∧ Run specification anyStep (specTrace q) a ∧
          get.answer = specGet a get.key .Memory) :=
  ⟨represented run, remote_specified run, memory_specified⟩

/-- A Remote get of a key whose newer value is in flight. -/
def inFlightTrace : Trace Bool Nat :=
  [.getReturned true "k" .Remote (.ok (some [1])), .listed true, .getCalled true "k" .Remote,
    .taken false, .frozen false, .gateTaken false, .flushCalled false, .put false "k" [2],
    .flushReturned false, .landed false 1, .taken false, .frozen false, .gateTaken false,
    .flushCalled false, .put false "k" [1]]

theorem durable_reads_refine_specification_inFlight :
    specTrace inFlightTrace = [.freeze, .put "k" (some [2]), .clear, .write, .freeze,
      .put "k" (some [1])] ∧
      ∃ q a, q <:+ inFlightTrace ∧ Run specification anyStep (specTrace q) a ∧
        specGet a "k" .Remote = .ok (some [1]) := by
  have start : Run system faultFree [] (initial : State Bool Nat) := .start rfl
  have landed := ((((((start.step (.put false "k" [1] rfl) (by decide)).step
    (.flushCalled false rfl) (by decide)).step
    (.gateTaken false rfl rfl) (by decide)).step
    (.frozen false rfl rfl) (by decide)).step
    (.taken false 1 rfl rfl (by decide)) (by decide)).step
    (.landed false rfl) (by decide)).step
    (.flushReturned false rfl) (by decide)
  have flying := ((((landed.step (.put false "k" [2] rfl) (by decide)).step
    (.flushCalled false rfl) (by decide)).step
    (.gateTaken false rfl rfl) (by decide)).step
    (.frozen false rfl rfl) (by decide)).step
    (.taken false 2 rfl rfl (by decide)) (by decide)
  have run : Run system faultFree inFlightTrace _ := ((flying.step
    (.getCalled true "k" .Remote rfl) (by decide)).step
    (.listed true [1] rfl ⟨List.Perm.refl _, by simp⟩) (by decide)).step
    (.segmentAnswered true rfl rfl) (by decide)
  let get : GetCall .Remote inFlightTrace :=
    ⟨true, "k", .ok (some [1]), inFlightTrace.tail, List.suffix_refl _⟩
  obtain ⟨q, a, inside, specified, answers⟩ :=
    (durable_reads_refine_specification run).2.1 get
  exact ⟨rfl, q, a, inside.2.trans (List.suffix_cons _ _), specified, answers.symm⟩

end Refinement

end FizzbeeMbt.RustStore
