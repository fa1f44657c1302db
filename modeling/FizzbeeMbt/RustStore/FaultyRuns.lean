import FizzbeeMbt.RustStore.FailedReads

/-! Runs of the Rust store on an object store that fails, and lists in any order. -/

namespace FizzbeeMbt.RustStore

open FizzbeeMbt.Maps FizzbeeMbt.Deltas FizzbeeMbt.Runs

variable {Client Path : Type} [DecidableEq Client] [LinearOrder Path]

/-- The steps of the store, and those of a `get` whose listing is not ascending, whose
listing fails or whose segment fails to be read. -/
inductive FaultyStep : State Client Path → Event Client Path → State Client Path → Prop
  | step {s s' : State Client Path} {event : Event Client Path} (taken : Step s event s') :
      FaultyStep s event s'
  | listed {s : State Client Path} (c : Client) {key : Key} {level : DurabilityLevel}
      (listing : List Path) (at_list : s.thread c = .getListing key level)
      (lists : Lists s.objects listing) :
      FaultyStep s (.listed c) (s.move c (.getReading key level listing.reverse))
  | listFailed {s : State Client Path} (c : Client) {key : Key} {level : DurabilityLevel}
      (e : String) (at_list : s.thread c = .getListing key level) :
      FaultyStep s (.getReturned c key level (get_listed (.error e) (fetch s.objects) key))
        (s.move c .idle)
  | readFailed {s : State Client Path} (c : Client) {key : Key} {level : DurabilityLevel}
      {path : Path} {rest : List Path} {answer : Except IoError Value} (fetched : Fetched)
      (reading : s.thread c = .getReading key level (path :: rest))
      (failed : fetched.failed = true) (answered : look_in_segment fetched key = some answer) :
      FaultyStep s (.getReturned c key level answer) (s.move c .idle)

def faultySystem : System (State Client Path) (Event Client Path) where
  start := fun s => s = initial
  step := FaultyStep

/-- The instant whose last writes a get of the level reports on. -/
def reportsAt (level : DurabilityLevel) (trace : Trace Client Path) : Trace Client Path :=
  match level with
  | .Remote => durableAt trace
  | .Memory => trace

section Steps

theorem faulty_of_run {admits : Trace Client Path → State Client Path → Event Client Path → Prop}
    {trace : Trace Client Path} {s : State Client Path} (run : Run system admits trace s) :
    Run faultySystem anyStep trace s := by
  induction run with
  | start found => exact .start found
  | step before taken admitted ih => exact ih.step (.step taken) trivial

/-- A step that is not the store's own is one of a `get`. -/
theorem faulty_step {s s' : State Client Path} {event : Event Client Path}
    (taken : FaultyStep s event s') :
    Step s event s' ∨ isQuiet event = true ∧ ∃ c thread, s' = s.move c thread ∧
      (s.thread c).holdsGate = false ∧ thread.holdsGate = false := by
  cases taken with
  | step taken => exact Or.inl taken
  | listed c listing at_list lists =>
      exact Or.inr ⟨rfl, c, _, rfl, by rw [at_list]; rfl, rfl⟩
  | listFailed c e at_list => exact Or.inr ⟨rfl, c, _, rfl, by rw [at_list]; rfl, rfl⟩
  | readFailed c fetched reading failed answered =>
      exact Or.inr ⟨rfl, c, _, rfl, by rw [reading]; rfl, rfl⟩

theorem faulty_gate {trace : Trace Client Path} {s : State Client Path}
    {admits : Trace Client Path → State Client Path → Event Client Path → Prop}
    (run : Run faultySystem admits trace s) : Gate s := by
  apply run.invariant (fun _ s => Gate s)
  · intro s start c
    obtain rfl : s = initial := start
    simp [initial, Thread.holdsGate]
  · intro _ s event s' _ gate _ taken
    rcases faulty_step taken with step | ⟨-, c, thread, rfl, outside, stays⟩
    · exact gate_step gate step
    · intro other
      by_cases own : other = c
      · subst own
        rw [move_thread_self, stays, ← outside]
        exact gate other
      · have same : (s.move c thread).thread other = s.thread other := by
          simp [State.move, own]
        rw [same]
        exact gate other

end Steps

section Sources

/-- Whatever the store holds it holds from an instant of the run, whole flushes may be
missing in between. -/
structure Sourced (trace : Trace Client Path) (s : State Client Path) : Prop where
  buffered : Recalls (tableOf s.store.buf) (writes trace)
  frozen : Recalls (tableOf s.store.immutable_buf) (writes (pendingAt trace))
  putting : ∀ c filename content, s.thread c = .flushPutting filename content →
    s.store.immutable_buf.isEmpty = true ∧
      Recalls (tableOf content) (writes (pendingAt trace))
  objects : ∀ path content, s.objects.lookup path = some content →
    ∃ upto, upto <:+ trace ∧ Recalls (tableOf content) (writes (durableAt upto))

omit [DecidableEq Client] in
theorem recalls_empty {map : Map Key Value} (empty : map.isEmpty = true)
    (h : History Key RawValue) : Recalls (tableOf map) h :=
  recalls_nothing _ _ (tableOf_empty empty)

variable {trace : Trace Client Path} {s s' : State Client Path} {event : Event Client Path}

omit [DecidableEq Client] in
theorem Sourced.objects_later (sourced : Sourced trace s) (event : Event Client Path)
    (path : Path) (content : Map Key Value) (held : s.objects.lookup path = some content) :
    ∃ upto, upto <:+ event :: trace ∧ Recalls (tableOf content) (writes (durableAt upto)) := by
  obtain ⟨upto, earlier, recalls⟩ := sourced.objects path content held
  exact ⟨upto, earlier.trans (List.suffix_cons event trace), recalls⟩

omit [DecidableEq Client] in
/-- A step that leaves the frozen entries where they are. -/
theorem Sourced.stays (sourced : Sourced trace s)
    (buffered : Recalls (tableOf s'.store.buf) (writes (event :: trace)))
    (frozen : s'.store.immutable_buf = s.store.immutable_buf)
    (mark : pendingAt (event :: trace) = pendingAt trace) (objects : s'.objects = s.objects)
    (putting : ∀ c filename content, s'.thread c = .flushPutting filename content →
      s.thread c = .flushPutting filename content) : Sourced (event :: trace) s' := by
  constructor
  · exact buffered
  · rw [frozen, mark]
    exact sourced.frozen
  · intro c filename content at'
    rw [frozen, mark]
    exact sourced.putting c filename content (putting c filename content at')
  · rw [objects]
    exact sourced.objects_later event

omit [DecidableEq Client] [LinearOrder Path] in
theorem recalls_put {kv : EmbeddedKvStore} {h : History Key RawValue}
    (buffered : Recalls (tableOf kv.buf) h) (key : Key) (value : Value) :
    Recalls (tableOf (kv.buf.insert key value)) ((key, value) :: h) := by
  have grown : tableOf (kv.buf.insert key value) =
      fun k => if k = key then some value else tableOf kv.buf k :=
    funext fun k => lookup_insert_if kv.buf key k value
  rw [grown]
  exact buffered.write key value

/-- Events after which the frozen entries are elsewhere, or gone. -/
def moves : Event Client Path → Bool
  | .frozen _ => true
  | .flushReturned _ => true
  | event => carries event

theorem sourced_unmoved (sourced : Sourced trace s) (taken : Step s event s')
    (still : moves event = false) : Sourced (event :: trace) s' := by
  have putting : ∀ c filename content, s'.thread c = .flushPutting filename content →
      s.thread c = .flushPutting filename content := by
    intro c filename content at'
    by_cases acts : c = actor event
    · subst acts
      cases taken <;>
        simp_all [moves, carries, actor, State.move, State.openGate]
    · rwa [step_thread_other taken c acts] at at'
  have mark : pendingAt (event :: trace) = pendingAt trace := by
    cases event <;> first | rfl | cases still
  cases taken with
  | put c key value idle =>
      exact sourced.stays (recalls_put sourced.buffered key (some value)) rfl mark rfl putting
  | delete c key idle =>
      exact sourced.stays (recalls_put sourced.buffered key none) rfl mark rfl putting
  | freezeSkipped c freezing not_frozen empty =>
      have same := freeze_kept s.store not_frozen
      refine sourced.stays ?_ (congrArg EmbeddedKvStore.immutable_buf same) mark rfl putting
      rw [congrArg EmbeddedKvStore.buf same]
      exact sourced.buffered
  | freezeRefused c freezing not_frozen filled =>
      have same := freeze_kept s.store not_frozen
      refine sourced.stays ?_ (congrArg EmbeddedKvStore.immutable_buf same) mark rfl putting
      rw [congrArg EmbeddedKvStore.buf same]
      exact sourced.buffered
  | frozen c freezing did_freeze => cases still
  | flushReturned c clearing => cases still
  | taken c filename taking took increasing => cases still
  | landed c putting => cases still
  | putFailed c putting => cases still
  | putDropped c putting => cases still
  | _ => exact sourced.stays sourced.buffered rfl mark rfl putting

/-- The flush that holds the gate moves the frozen entries: into `immutable_buf`, out of
it, into a segment, or nowhere. -/
theorem sourced_moved (sourced : Sourced trace s) (gate : Gate s) (taken : Step s event s')
    (moved : moves event = true) : Sourced (event :: trace) s' := by
  have alone : ∀ c filename content, (s.thread (actor event)).holdsGate = true →
      s'.thread c = .flushPutting filename content → c = actor event := by
    intro c filename content holds at'
    by_contra other
    rw [step_thread_other taken c other] at at'
    exact other (gate.sole (actor event) c holds (by rw [at']; rfl))
  have lost : ∀ filename content, s.thread (actor event) = .flushPutting filename content →
      Recalls (tableOf s.store.immutable_buf) (writes (durableAt trace)) := by
    intro filename content putting
    exact recalls_empty (sourced.putting _ filename content putting).1 _
  cases taken with
  | frozen c freezing did_freeze =>
      obtain ⟨store, -, -⟩ := freeze_moved s.store did_freeze
      constructor
      · rw [congrArg EmbeddedKvStore.buf store]
        exact recalls_empty rfl _
      · rw [congrArg EmbeddedKvStore.immutable_buf store]
        exact sourced.buffered
      · intro c' filename content at'
        obtain rfl : c' = c := alone c' filename content (by rw [actor, freezing]; rfl) at'
        simp [State.move] at at'
      · exact sourced.objects_later _
  | @taken c filename content store taking took increasing =>
      obtain ⟨rfl, rfl, -⟩ := take_moved s.store store content took
      constructor
      · exact sourced.buffered
      · exact recalls_empty rfl _
      · intro c' filename' content' at'
        obtain rfl : c' = c := alone c' _ _ (by rw [actor, taking]; rfl) at'
        obtain ⟨-, rfl⟩ := Thread.flushPutting.inj ((move_thread_self s c' _).symm.trans at')
        exact ⟨rfl, sourced.frozen⟩
      · exact sourced.objects_later _
  | @landed c filename content putting =>
      constructor
      · exact sourced.buffered
      · exact sourced.frozen
      · intro c' filename' content' at'
        obtain rfl : c' = c := alone c' _ _ (by rw [actor, putting]; rfl) at'
        simp [State.move] at at'
      · intro path content' held
        rw [lookup_insert_if] at held
        by_cases name : path = filename
        · rw [if_pos name] at held
          obtain rfl := Option.some.inj held
          exact ⟨_, List.suffix_refl _, (sourced.putting c filename content putting).2⟩
        · rw [if_neg name] at held
          exact sourced.objects_later _ path content' held
  | putFailed c putting =>
      constructor
      · exact sourced.buffered
      · exact lost _ _ putting
      · intro c' filename' content' at'
        obtain rfl : c' = c := alone c' _ _ (by rw [actor, putting]; rfl) at'
        simp [State.move, State.openGate] at at'
      · exact sourced.objects_later _
  | putDropped c putting =>
      constructor
      · exact sourced.buffered
      · exact lost _ _ putting
      · intro c' filename' content' at'
        obtain rfl : c' = c := alone c' _ _ (by rw [actor, putting]; rfl) at'
        simp [State.move, State.openGate] at at'
      · exact sourced.objects_later _
  | flushReturned c clearing =>
      constructor
      · exact sourced.buffered
      · exact recalls_empty rfl _
      · intro c' filename' content' at'
        obtain rfl : c' = c := alone c' _ _ (by rw [actor, clearing]; rfl) at'
        simp [State.move, State.openGate] at at'
      · exact sourced.objects_later _
  | _ => cases moved

theorem sourced_run {admits : Trace Client Path → State Client Path → Event Client Path → Prop}
    {trace : Trace Client Path} {s : State Client Path} (run : Run faultySystem admits trace s) :
    Sourced trace s := by
  apply run.invariant Sourced
  · intro s start
    obtain rfl : s = initial := start
    refine ⟨recalls_empty rfl _, recalls_empty rfl _, ?_, ?_⟩
    · intro c filename content at'
      cases at'
    · intro path content held
      simp [initial] at held
  · intro trace s event s' before sourced _ taken
    rcases faulty_step taken with step | ⟨quiet, c, thread, rfl, -, stays⟩
    · cases moved : moves event with
      | true => exact sourced_moved sourced (faulty_gate before) step moved
      | false => exact sourced_unmoved sourced step moved
    · have silent : writeOf event = none := by
        cases event <;> simp_all [isQuiet, writeOf]
      refine sourced.stays ?_ rfl (marks_quiet event trace quiet).2 rfl ?_
      · rw [writes_quiet event trace silent]
        exact sourced.buffered
      · intro other filename content at'
        by_cases own : other = c
        · subst own
          rw [move_thread_self] at at'
          rw [at'] at stays
          cases stays
        · simpa [State.move, own] using at'

end Sources

section Answers

variable {trace : Trace Client Path} {s : State Client Path} {level : DurabilityLevel}

omit [DecidableEq Client] [LinearOrder Path] in
theorem marks_suffix (trace : Trace Client Path) :
    durableAt trace <:+ trace ∧ pendingAt trace <:+ trace := by
  induction trace with
  | nil => exact ⟨List.suffix_refl _, List.suffix_refl _⟩
  | cons event trace ih =>
      have durable := ih.1.trans (List.suffix_cons event trace)
      have pending := ih.2.trans (List.suffix_cons event trace)
      cases event with
      | frozen c => exact ⟨durable, List.suffix_cons _ trace⟩
      | landed c filename => exact ⟨pending, pending⟩
      | putFailed c => exact ⟨durable, durable⟩
      | putDropped c => exact ⟨durable, durable⟩
      | _ => exact ⟨durable, pending⟩

/-- The get answered as one without failures does at an instant. -/
def Recalled (get : GetCall level trace) (instant : Trace Client Path) : Prop :=
  instant <:+ get.past ∧
    get.answer = .ok (latest (writes (reportsAt level instant)) get.key).join

omit [DecidableEq Client] [LinearOrder Path] in
/-- What a landed segment holds is what either get reports on at some instant. -/
theorem recalled_of_durable (get : GetCall level trace) {upto : Trace Client Path}
    (earlier : upto <:+ get.past)
    (answers : get.answer = .ok (latest (writes (durableAt upto)) get.key).join) :
    ∃ instant, Recalled get instant := by
  obtain ⟨c, key, answer, past, returned⟩ := get
  cases level with
  | Remote => exact ⟨upto, earlier, answers⟩
  | Memory => exact ⟨durableAt upto, (marks_suffix upto).1.trans earlier, answers⟩

/-- A get of a run answers as one without failures does at an instant of the run. -/
theorem step_recalls {past : Trace Client Path} {c : Client} {key : Key}
    {answer : Except IoError Value} {s' : State Client Path} (sourced : Sourced past s)
    (returned : .getReturned c key level answer :: past <:+ trace)
    (taken : Step s (.getReturned c key level answer) s') :
    ∃ instant, Recalled (⟨c, key, answer, past, returned⟩ : GetCall level trace) instant := by
  cases taken with
  | bufFound c looking found =>
      refine ⟨past, List.suffix_refl _, ?_⟩
      simp only [reportsAt]
      rw [sourced.buffered key _ found]
      rfl
  | immutableFound c looking found =>
      refine ⟨pendingAt past, (marks_suffix past).2, ?_⟩
      simp only [reportsAt]
      rw [sourced.frozen key _ found]
      rfl
  | @segmentAnswered c key level path rest answer reading answered =>
      rw [look_in_segment_fetch] at answered
      obtain ⟨value, looked, rfl⟩ := Option.map_eq_some_iff.mp answered
      obtain ⟨content, held, entry⟩ := Option.bind_eq_some_iff.mp looked
      obtain ⟨upto, earlier, recalls⟩ := sourced.objects path content held
      apply recalled_of_durable _ earlier
      rw [recalls key value entry]
      rfl
  | scanEnded c reading => exact recalled_of_durable _ List.nil_suffix rfl

/-- Faults make the store answer late or not at all and never make an answer up:
whatever puts, listings and reads fail, whatever flushes are dropped and in whatever
order objects are listed, a get answers as one without failures does at an instant of
the run, or with an error; and never with one where every listing is in order and every
read succeeds. The start of the run is one of its instants, so that nothing is said of a
get that misses its key; what is ruled out are values that the key never had. -/
theorem faulty_reads_recall (run : Run faultySystem anyStep trace s)
    (get : GetCall level trace) :
    ((∃ e, get.answer = .error e) ∨ ∃ instant, Recalled get instant) ∧
      (Run system anyStep trace s → ∃ instant, Recalled get instant) := by
  obtain ⟨c, key, answer, past, returned⟩ := get
  constructor
  · obtain ⟨s₁, s₂, upto, -, taken⟩ := run.emitted returned
    cases taken with
    | step taken => exact Or.inr (step_recalls (sourced_run upto) returned taken)
    | listFailed c e at_list => exact Or.inl ⟨_, rfl⟩
    | readFailed c fetched reading failed answered =>
        obtain ⟨e, read⟩ := (failed_iff fetched).mp failed
        simp only [look_in_segment, read, Option.some.injEq] at answered
        exact Or.inl ⟨e, answered.symm⟩
  · intro sound
    obtain ⟨s₁, s₂, upto, -, taken⟩ := sound.emitted returned
    exact step_recalls (sourced_run (faulty_of_run upto)) returned taken

/-- A Remote get whose listing has the newer of two segments first, and so reads it last. -/
def misorderedTrace : Trace Unit Nat :=
  [.getReturned () "k" .Remote (.ok (some [1])), .listed (), .getCalled () "k" .Remote,
    .putFailed (), .taken (), .frozen (), .gateTaken (), .flushCalled (), .put () "k" [3],
    .flushReturned (), .landed () 2, .taken (), .frozen (), .gateTaken (), .flushCalled (),
    .put () "k" [2],
    .flushReturned (), .landed () 1, .taken (), .frozen (), .gateTaken (), .flushCalled (),
    .put () "k" [1]]

theorem faulty_reads_recall_misordered :
    (∃ s, Run faultySystem anyStep misorderedTrace s) ∧
      ∃ instant : Trace Unit Nat, (.ok (some [1]) : Except IoError Value) =
        .ok (latest (writes (durableAt instant)) "k").join := by
  have start : Run system anyStep [] (initial : State Unit Nat) := .start rfl
  have first := ((((((start.step (.put () "k" [1] rfl) trivial).step
    (.flushCalled () rfl) trivial).step
    (.gateTaken () rfl rfl) trivial).step
    (.frozen () rfl rfl) trivial).step
    (.taken () 1 rfl rfl (by decide)) trivial).step
    (.landed () rfl) trivial).step
    (.flushReturned () rfl) trivial
  have second := ((((((first.step (.put () "k" [2] rfl) trivial).step
    (.flushCalled () rfl) trivial).step
    (.gateTaken () rfl rfl) trivial).step
    (.frozen () rfl rfl) trivial).step
    (.taken () 2 rfl rfl (by decide)) trivial).step
    (.landed () rfl) trivial).step
    (.flushReturned () rfl) trivial
  have third := (((((second.step (.put () "k" [3] rfl) trivial).step
    (.flushCalled () rfl) trivial).step
    (.gateTaken () rfl rfl) trivial).step
    (.frozen () rfl rfl) trivial).step
    (.taken () 3 rfl rfl (by decide)) trivial).step
    (.putFailed () rfl) trivial
  have called := faulty_of_run (third.step (.getCalled () "k" .Remote rfl) trivial)
  have run : ∃ s, Run faultySystem anyStep misorderedTrace s := ⟨_, (called.step
    (.listed () [2, 1] rfl (List.Perm.refl _)) trivial).step
    (.step (.segmentAnswered () rfl rfl)) trivial⟩
  refine ⟨run, ?_⟩
  obtain ⟨s, run⟩ := run
  obtain ⟨⟨e, failed⟩ | ⟨instant, recalls⟩, -⟩ := faulty_reads_recall run
    (⟨(), "k", .ok (some [1]), _, List.suffix_refl _⟩ : GetCall .Remote misorderedTrace)
  · cases failed
  · exact ⟨instant, recalls.2⟩

end Answers

end FizzbeeMbt.RustStore
