import FizzbeeMbt.RustStore.Reads

/-! Gets with `DurabilityLevel::Memory`: what they return while a flush moves
entries from layer to layer under them, and after flushes that stopped half-way. -/

namespace FizzbeeMbt.RustStore

open FizzbeeMbt.Maps FizzbeeMbt.Deltas FizzbeeMbt.Runs

variable {Client Path : Type} [DecidableEq Client] [LinearOrder Path]

/-- A Memory get lists the objects while its key is in flight, in no layer it can
reach, although the key was written before the get began and after the segments. -/
def exposed (trace : Trace Client Path) (s : State Client Path) (event : Event Client Path) :
    Bool :=
  match event with
  | .listed c =>
      match s.thread c with
      | .getListing key .Memory =>
          decide (key ∈ s.inFlight.keys) &&
            (recent (writes (durableAt trace)) (writes (calledAt c trace))).any
              fun write => decide (write.1 = key)
      | _ => false
  | _ => false

def unexposed (trace : Trace Client Path) (s : State Client Path) (event : Event Client Path) :
    Prop :=
  faultFree trace s event ∧ exposed trace s event = false

instance (trace : Trace Client Path) (s : State Client Path) (event : Event Client Path) :
    Decidable (unexposed trace s event) :=
  inferInstanceAs (Decidable (faultFree trace s event ∧ exposed trace s event = false))

/-- What the writes up to `mark` say of the key was so at an instant since the call. -/
def Seen (c : Client) (key : Key) (trace mark : Trace Client Path) : Prop :=
  ∃ q, Between (calledAt c trace) q trace ∧
    latest (writes mark) key = latest (writes q) key

omit [LinearOrder Path] in
theorem Seen.later {c : Client} {key : Key} {trace mark : Trace Client Path}
    (seen : Seen c key trace mark) (event : Event Client Path)
    (uncalled : isCalledBy c event = false) : Seen c key (event :: trace) mark := by
  obtain ⟨q, inside, same⟩ := seen
  refine ⟨q, ?_, same⟩
  rw [calledAt, before_miss _ _ _ uncalled]
  exact inside.later event

omit [LinearOrder Path] in
theorem seen_now (c : Client) (key : Key) (trace : Trace Client Path)
    (event : Event Client Path) (uncalled : isCalledBy c event = false) :
    Seen c key (event :: trace) trace := by
  refine ⟨trace, ?_, rfl⟩
  rw [calledAt, before_miss _ _ _ uncalled]
  exact ⟨before_suffix _ trace, List.suffix_cons event trace⟩

omit [LinearOrder Path] in
theorem Seen.congr {c : Client} {key : Key} {trace mark other : Trace Client Path}
    (seen : Seen c key trace mark)
    (same : latest (writes other) key = latest (writes mark) key) : Seen c key trace other := by
  obtain ⟨q, inside, answers⟩ := seen
  exact ⟨q, inside, same.trans answers⟩

/-- What a Memory get has still to find, at each of its steps. -/
structure Dirty (trace : Trace Client Path) (s : State Client Path) (c : Client) : Prop where
  immutable : ∀ key, s.thread c = .getImmutable key → Seen c key trace (pendingAt trace)
  listing : ∀ key, s.thread c = .getListing key .Memory →
    Seen c key trace (pendingAt trace) ∧
      (Seen c key trace (durableAt trace) ∨ key ∈ s.inFlight.keys)
  reading : ∀ key remaining, s.thread c = .getReading key .Memory remaining →
    Seen c key trace (durableAt (listedAt c trace))

omit [DecidableEq Client] [LinearOrder Path] in
/-- A step that loses nothing leaves the marks, or freezes, or lands. -/
theorem marks_step (event : Event Client Path) (trace : Trace Client Path)
    (kept : isPutLost event = false) :
    (pendingAt (event :: trace) = pendingAt trace ∨ pendingAt (event :: trace) = trace) ∧
      (durableAt (event :: trace) = durableAt trace ∨
        durableAt (event :: trace) = pendingAt trace) := by
  cases event <;>
    first
      | exact ⟨Or.inl rfl, Or.inl rfl⟩
      | exact ⟨Or.inr rfl, Or.inl rfl⟩
      | exact ⟨Or.inl rfl, Or.inr rfl⟩
      | cases kept

omit [LinearOrder Path] in
theorem Seen.pending {c : Client} {key : Key} {trace : Trace Client Path}
    (seen : Seen c key trace (pendingAt trace)) (event : Event Client Path)
    (kept : isPutLost event = false) (uncalled : isCalledBy c event = false) :
    Seen c key (event :: trace) (pendingAt (event :: trace)) := by
  rcases (marks_step event trace kept).1 with same | froze
  · rw [same]
    exact seen.later event uncalled
  · rw [froze]
    exact seen_now c key trace event uncalled

omit [LinearOrder Path] in
theorem Seen.durable {c : Client} {key : Key} {trace : Trace Client Path}
    (pending : Seen c key trace (pendingAt trace))
    (durable : Seen c key trace (durableAt trace)) (event : Event Client Path)
    (kept : isPutLost event = false) (uncalled : isCalledBy c event = false) :
    Seen c key (event :: trace) (durableAt (event :: trace)) := by
  rcases (marks_step event trace kept).2 with same | landed
  · rw [same]
    exact durable.later event uncalled
  · rw [landed]
    exact pending.later event uncalled

/-- The map in flight stays there until it lands or is lost. -/
theorem inFlight_until_landed {s s' : State Client Path} {event : Event Client Path}
    (gate : Gate s) (taken : Step s event s') (kept : isPutLost event = false) {key : Key}
    (flies : key ∈ s.inFlight.keys) :
    key ∈ s'.inFlight.keys ∨ ∃ c filename, event = .landed c filename := by
  by_cases still : carries event = false
  · rw [inFlight_step gate taken still]
    exact Or.inl flies
  · cases taken with
    | landed c putting => exact Or.inr ⟨_, _, rfl⟩
    | taken c filename taking took increasing =>
        rw [gate.inFlight c (by rw [taking]; rfl), taking] at flies
        cases flies
    | putFailed c putting => cases kept
    | putDropped c putting => cases kept
    | _ => exact absurd rfl still

/-- A step of another client that loses nothing keeps what a Memory get can find. -/
theorem dirty_beside {trace : Trace Client Path} {s s' : State Client Path}
    {event : Event Client Path} (gate : Gate s) {c : Client} (dirty : Dirty trace s c)
    (differ : c ≠ actor event) (taken : Step s event s') (kept : isPutLost event = false) :
    Dirty (event :: trace) s' c := by
  obtain ⟨uncalled, unlisted⟩ := marks_of_other c event differ
  have same := step_thread_other taken c differ
  constructor
  · intro key at'
    exact (dirty.immutable key (same ▸ at')).pending event kept uncalled
  · intro key at'
    obtain ⟨pending, found⟩ := dirty.listing key (same ▸ at')
    refine ⟨pending.pending event kept uncalled, ?_⟩
    rcases found with durable | flies
    · exact Or.inl (pending.durable durable event kept uncalled)
    · rcases inFlight_until_landed gate taken kept flies with flies | ⟨other, filename, rfl⟩
      · exact Or.inr flies
      · exact Or.inl (pending.later _ uncalled)
  · intro key remaining at'
    rw [listedAt, before_miss _ _ _ unlisted]
    exact (dirty.reading key remaining (same ▸ at')).later event uncalled

/-- An unexposed listing finds a segment for every write it is asked for. -/
theorem listing_seen {trace : Trace Client Path} {s : State Client Path} {c : Client}
    {key : Key} (layers : Layers trace s)
    (found : Seen c key trace (durableAt trace) ∨ key ∈ s.inFlight.keys)
    (at' : s.thread c = .getListing key .Memory)
    (unexposed : exposed trace s (.listed c) = false) : Seen c key trace (durableAt trace) := by
  rcases found with durable | flies
  · exact durable
  · have called : calledAt c trace <:+ trace := before_suffix _ trace
    have landed : durableAt trace <:+ trace := layers.ordered.trans layers.past
    have unwritten : ∀ write ∈ recent (writes (durableAt trace)) (writes (calledAt c trace)),
        write.1 ≠ key := by
      simpa [exposed, at', flies] using unexposed
    rcases List.suffix_or_suffix_of_suffix called landed with early | late
    · exact ⟨durableAt trace, ⟨early, landed⟩, rfl⟩
    · refine ⟨calledAt c trace, ⟨List.suffix_refl _, called⟩, ?_⟩
      exact (latest_not_recent (writes_suffix late) key unwritten).symm

theorem dirty_own {trace : Trace Client Path} {s s' : State Client Path}
    {event : Event Client Path} (layers : Layers trace s) (gate : Gate s)
    (dirty : Dirty trace s (actor event)) (taken : Step s event s')
    (unexposed : exposed trace s event = false) :
    Dirty (event :: trace) s' (actor event) := by
  constructor
  · intro key at'
    cases taken with
    | bufMissed c looking missed =>
        simp only [actor, move_thread_self, Thread.getImmutable.injEq] at at'
        subst at'
        exact (seen_now c _ trace _ rfl).congr (layers.buffered.miss missed).symm
    | _ => simp_all [actor, State.move, State.openGate]
  · intro key at'
    cases taken with
    | @immutableMissed c key looking missed =>
        simp only [actor, move_thread_self, Thread.getListing.injEq, and_true] at at'
        subst at'
        have seen := (dirty.immutable _ looking).later (.immutableMissed c) rfl
        refine ⟨seen, ?_⟩
        by_cases flies : key ∈ s.inFlight.keys
        · exact Or.inr ((inFlight_step gate (.immutableMissed c looking missed) rfl).symm ▸ flies)
        · apply Or.inl
          have grounded : tableOf s.inFlight key = none :=
            AList.lookup_eq_none.mpr fun member => flies (AList.mem_keys.mp member)
          have cold : tableOf s.store.immutable_buf key = none := missed
          have absent : scan [tableOf s.store.immutable_buf, tableOf s.inFlight] key = none := by
            simp only [scan, cold, grounded, Option.or_none]
          exact seen.congr (layers.frozen.miss absent).symm
    | _ => simp_all [actor, State.move, State.openGate]
  · intro key remaining at'
    cases taken with
    | listed c listing at_list lists =>
        simp only [actor, move_thread_self, Thread.getReading.injEq] at at'
        obtain ⟨rfl, rfl, -⟩ := at'
        have listed : listedAt c (.listed c :: trace) = trace :=
          before_hit _ _ _ (by simp [isListedBy])
        simp only [actor]
        rw [listed]
        apply Seen.later _ _ rfl
        exact listing_seen layers (dirty.listing _ at_list).2 at_list unexposed
    | segmentPassed c reading passed =>
        simp only [actor, move_thread_self, Thread.getReading.injEq] at at'
        obtain ⟨rfl, rfl, -⟩ := at'
        exact (dirty.reading _ _ reading).later _ rfl
    | _ => simp_all [actor, State.move, State.openGate]

theorem dirty_step {trace : Trace Client Path} {s s' : State Client Path}
    {event : Event Client Path} (layers : Layers trace s) (gate : Gate s) {c : Client}
    (dirty : Dirty trace s c) (taken : Step s event s') (kept : isPutLost event = false)
    (unexposed : exposed trace s event = false) : Dirty (event :: trace) s' c := by
  by_cases acts : c = actor event
  · subst acts
    exact dirty_own layers gate dirty taken unexposed
  · exact dirty_beside gate dirty acts taken kept

omit [LinearOrder Path] in
theorem dirty_initial (c : Client) : Dirty [] (initial : State Client Path) c := by
  constructor
  · intro key at'
    cases at'
  · intro key at'
    cases at'
  · intro key remaining at'
    cases at'

theorem dirty_answer {past : Trace Client Path} {s s' : State Client Path} {c : Client}
    {key : Key} {answer : Except IoError Value} (layers : Layers past s)
    (reads : Reads past s) (dirty : Dirty past s c)
    (taken : Step s (.getReturned c key .Memory answer) s') :
    ∃ q, Between (calledAt c past) q past ∧
      answer = .ok (latest (writes q) key).join := by
  have called : calledAt c past <:+ past := before_suffix _ past
  cases taken with
  | bufFound c looking found =>
      refine ⟨past, between_now called, ?_⟩
      rw [layers.buffered.hit found]
      rfl
  | immutableFound c looking found =>
      obtain ⟨q, inside, same⟩ := dirty.immutable key looking
      refine ⟨q, inside, ?_⟩
      have hit : scan [tableOf s.store.immutable_buf, tableOf s.inFlight] key = some _ :=
        congrArg (Option.or · _) found
      rw [← same, layers.frozen.hit hit]
      rfl
  | segmentAnswered c reading answered =>
      obtain ⟨q, inside, same⟩ := dirty.reading key _ reading
      refine ⟨q, inside, ?_⟩
      rw [← same]
      exact reading_answer (reads c _ _ _ reading) answered
  | scanEnded c reading =>
      obtain ⟨q, inside, same⟩ := dirty.reading key _ reading
      refine ⟨q, inside, ?_⟩
      rw [← same]
      exact ended_answer (reads c _ _ _ reading)

theorem lossless_of_faultFree {admits : Trace Client Path → State Client Path →
    Event Client Path → Prop} {trace : Trace Client Path} {s : State Client Path}
    (run : Run system admits trace s)
    (faultless : ∀ trace s event, admits trace s event → isPutLost event = false) :
    Run system losslessStop trace s := by
  apply run.refine
  intro trace s event _ _ admitted _ lost
  rw [faultless trace s event admitted] at lost
  cases lost

/-- Dirty reads are linearizable as long as no Memory get lists the objects while
its key is in flight: each answers for an instant between its call and its return. -/
theorem unexposed_get_linearizable {trace : Trace Client Path} {s : State Client Path}
    (run : Run system unexposed trace s) (get : GetCall .Memory trace) :
    ∃ q, Between get.began q get.past ∧
      get.answer = .ok (latest (writes q) get.key).join := by
  obtain ⟨c, key, answer, past, returned⟩ := get
  obtain ⟨s₁, s₂, before, -, taken⟩ := run.emitted returned
  have lossless {trace : Trace Client Path} {s : State Client Path}
      (run : Run system unexposed trace s) : Run system losslessStop trace s :=
    lossless_of_faultFree run fun _ _ _ admitted => admitted.1.1
  have dirty : ∀ c, Dirty past s₁ c := by
    apply before.invariant (fun trace s => ∀ c, Dirty trace s c)
    · intro s start c
      subst start
      exact dirty_initial c
    · intro trace s event s' run dirty admitted taken c
      exact dirty_step (layers_run (lossless run)) (gate_run run) (dirty c) taken
        admitted.1.1 admitted.2
  exact dirty_answer (layers_run (lossless before)) (reads_run (lossless before)) (dirty c) taken

/-- A Memory get of a landed key while another key is in flight. -/
def besideTrace : Trace Bool Nat :=
  [.getReturned true "k" .Memory (.ok (some [1])), .listed true, .immutableMissed true,
    .bufMissed true, .getCalled true "k" .Memory, .taken false, .frozen false,
    .gateTaken false, .flushCalled false, .put false "j" [2], .flushReturned false,
    .landed false 1, .taken false, .frozen false, .gateTaken false, .flushCalled false,
    .put false "k" [1]]

theorem unexposed_get_linearizable_beside :
    (∃ s, Run system unexposed besideTrace s) ∧
      ∃ get : GetCall .Memory besideTrace, get.answer = .ok (some [1]) ∧
        ∃ q, Between get.began q get.past ∧
          (.ok (some [1]) : Except IoError Value) = .ok (latest (writes q) get.key).join := by
  have start : Run system unexposed [] (initial : State Bool Nat) := .start rfl
  have landed := ((((((start.step (.put false "k" [1] rfl) (by decide)).step
    (.flushCalled false rfl) (by decide)).step
    (.gateTaken false rfl rfl) (by decide)).step
    (.frozen false rfl rfl) (by decide)).step
    (.taken false 1 rfl rfl (by decide)) (by decide)).step
    (.landed false rfl) (by decide)).step
    (.flushReturned false rfl) (by decide)
  have flying := ((((landed.step (.put false "j" [2] rfl) (by decide)).step
    (.flushCalled false rfl) (by decide)).step
    (.gateTaken false rfl rfl) (by decide)).step
    (.frozen false rfl rfl) (by decide)).step
    (.taken false 2 rfl rfl (by decide)) (by decide)
  have run : ∃ s, Run system unexposed besideTrace s := ⟨_, ((((flying.step
    (.getCalled true "k" .Memory rfl) (by decide)).step
    (.bufMissed true rfl rfl) (by decide)).step
    (.immutableMissed true rfl rfl) (by decide)).step
    (.listed true [1] rfl ⟨List.Perm.refl _, by simp⟩) (by decide)).step
    (.segmentAnswered true rfl rfl) (by decide)⟩
  let get : GetCall .Memory besideTrace :=
    ⟨true, "k", .ok (some [1]), besideTrace.tail, List.suffix_refl _⟩
  refine ⟨run, get, rfl, ?_⟩
  obtain ⟨s, run⟩ := run
  exact unexposed_get_linearizable run get

/-- Outside that condition a get reads stale: what it lists answers for the landed
segments, although its key was written since, before the get was called. -/
theorem exposed_get_is_stale {trace : Trace Client Path} {s : State Client Path} {c : Client}
    {key : Key} (layers : Layers trace s) (at' : s.thread c = .getListing key .Memory)
    (exposes : exposed trace s (.listed c) = true) (listing : List Path)
    (lists : ListsAscending s.objects listing) :
    get_listed (.ok listing) (fetch s.objects) key =
        .ok (latest (writes (durableAt trace)) key).join ∧
      ∃ value, (key, value) ∈ recent (writes (durableAt trace)) (writes (calledAt c trace)) := by
  refine ⟨layers.get_listed key listing lists, ?_⟩
  simp only [exposed, at', Bool.and_eq_true, List.any_eq_true, decide_eq_true_eq] at exposes
  obtain ⟨-, ⟨written, value⟩, member, same⟩ := exposes
  exact ⟨value, same ▸ member⟩

/-- Put, a flush halted between its take and its put, and a Memory get. -/
def takenTrace : Trace Bool Nat :=
  [.getReturned true "k" .Memory (.ok none), .listed true, .immutableMissed true,
    .bufMissed true, .getCalled true "k" .Memory, .taken false, .frozen false,
    .gateTaken false, .flushCalled false, .put false "k" [1]]

/-- While the taken map is in no layer, a get misses a put that completed before
the get began. -/
theorem get_misses_taken_put :
    (∃ s, Run system faultFree takenTrace s) ∧
      ∃ get : GetCall .Memory takenTrace, get.key = "k" ∧ get.answer = .ok none ∧
        ∀ q, Between get.began q get.past →
          get.answer ≠ .ok (latest (writes q) get.key).join := by
  have start : Run system faultFree [] (initial : State Bool Nat) := .start rfl
  have flying := ((((start.step (.put false "k" [1] rfl) (by decide)).step
    (.flushCalled false rfl) (by decide)).step
    (.gateTaken false rfl rfl) (by decide)).step
    (.frozen false rfl rfl) (by decide)).step
    (.taken false 1 rfl rfl (by decide)) (by decide)
  have run := ((((flying.step (.getCalled true "k" .Memory rfl) (by decide)).step
    (.bufMissed true rfl rfl) (by decide)).step
    (.immutableMissed true rfl rfl) (by decide)).step
    (.listed true [] rfl ⟨List.Perm.refl _, List.Pairwise.nil⟩) (by decide)).step
    (.scanEnded true rfl) (by decide)
  let get : GetCall .Memory takenTrace :=
    ⟨true, "k", .ok none, takenTrace.tail, List.suffix_refl _⟩
  refine ⟨⟨_, run⟩, get, rfl, rfl, ?_⟩
  intro q inside
  rw [writes_between inside rfl]
  decide

section Calm

/-- The thread is inside a flush call. -/
def Thread.inFlush : Thread Path → Bool
  | .flushCalled => true
  | thread => thread.holdsGate

theorem flushing_run {admits : Trace Client Path → State Client Path →
    Event Client Path → Prop} {trace : Trace Client Path} {s : State Client Path}
    (run : Run system admits trace s) : ∀ c, flushing c trace = (s.thread c).inFlush := by
  apply run.invariant (fun trace s => ∀ c, flushing c trace = (s.thread c).inFlush)
  · intro s start c
    subst start
    rfl
  · intro trace s event s' _ ih _ taken c
    have before := ih c
    by_cases acts : c = actor event
    · subst acts
      cases taken with
      | getCalled c key level idle =>
          cases level <;>
            simp_all [actor, State.move, flushing, Thread.inFlush, Thread.holdsGate, getStart]
      | dropped c awaiting =>
          rcases awaiting with at' | at' | at' <;>
            simp_all [actor, State.move, State.openGate, flushing, Thread.inFlush,
              Thread.holdsGate]
      | _ =>
          simp_all [actor, State.move, State.openGate, flushing, Thread.inFlush,
            Thread.holdsGate]
    · rw [step_thread_other taken c acts, ← before]
      cases event <;> simp_all [actor, flushing, eq_comm]

/-- No flush call has been in progress since the last call of `c`. -/
def Calm (c : Client) (trace : Trace Client Path) : Prop :=
  ∀ q, Between (calledAt c trace) q trace → ∀ other, flushing other q = false

omit [LinearOrder Path] in
theorem Calm.now {c : Client} {trace : Trace Client Path} (calm : Calm c trace)
    (other : Client) : flushing other trace = false :=
  calm trace (between_now (before_suffix _ trace)) other

omit [LinearOrder Path] in
theorem Calm.before {c : Client} {event : Event Client Path} {trace : Trace Client Path}
    (calm : Calm c (event :: trace)) (uncalled : isCalledBy c event = false) :
    Calm c trace := by
  have called : calledAt c (event :: trace) = calledAt c trace := before_miss _ _ _ uncalled
  intro q inside
  exact calm q (called ▸ inside.later event)

omit [DecidableEq Client] [LinearOrder Path] in
/-- With no flush in progress nothing is in flight. -/
theorem calm_grounded {s : State Client Path}
    (still : ∀ c, (s.thread c).inFlush = false) : s.inFlight = ∅ := by
  unfold State.inFlight
  cases s.flush_gate with
  | none => rfl
  | some c =>
      apply carried_idle
      have idle := still c
      cases at' : s.thread c <;> simp_all [Thread.inFlush]

/-- A call that has only begun has looked nowhere yet. -/
theorem dirty_called {trace : Trace Client Path} {s s' : State Client Path}
    {event : Event Client Path} {c : Client} (taken : Step s event s')
    (called : isCalledBy c event = true) : Dirty (event :: trace) s' c := by
  have acts : c = actor event := by
    by_contra differ
    rw [(marks_of_other c event differ).1] at called
    cases called
  subst acts
  constructor
  · intro key at'
    cases taken <;> simp_all [actor, isCalledBy]
  · intro key at'
    cases taken <;> simp_all [actor, isCalledBy]
  · intro key remaining at'
    cases taken <;> simp_all [actor, isCalledBy]

/-- A Memory get during which no flush is in progress finds every write, over runs
whose stopped flushes lose nothing. -/
theorem calm_dirty {trace : Trace Client Path} {s : State Client Path}
    (run : Run system losslessStop trace s) : ∀ c, Calm c trace → Dirty trace s c := by
  apply run.invariant (fun trace s => ∀ c, Calm c trace → Dirty trace s c)
  · intro s start c _
    subst start
    exact dirty_initial c
  · intro trace s event s' before ih _ taken c calm
    by_cases called : isCalledBy c event = true
    · exact dirty_called taken called
    · have uncalled : isCalledBy c event = false := by simpa using called
      have earlier := calm.before uncalled
      have still : ∀ other, (s.thread other).inFlush = false := by
        intro other
        rw [← flushing_run before other]
        exact earlier.now other
      have kept : isPutLost event = false := by
        cases taken with
        | putFailed other putting =>
            have idle := still other
            rw [putting] at idle
            cases idle
        | putDropped other putting =>
            have idle := still other
            rw [putting] at idle
            cases idle
        | _ => rfl
      have unexposed : exposed trace s event = false := by
        unfold exposed
        rw [calm_grounded still]
        split
        · split
          · rfl
          · rfl
        · rfl
      exact dirty_step (layers_run before) (gate_run before) (ih c earlier) taken kept unexposed

/-- Flushes that failed or were dropped lose nothing as long as everything they
dropped before its object existed had been written again: a Memory get during which
no flush is in progress answers for an instant between its call and its return, and
for its call when nothing is written meanwhile. -/
theorem memory_get_after_stops {trace : Trace Client Path} {s : State Client Path}
    (run : Run system losslessStop trace s) (get : GetCall .Memory trace)
    (calm : ∀ q, Between get.began q get.past → ∀ other, flushing other q = false) :
    (∃ q, Between get.began q get.past ∧
        get.answer = .ok (latest (writes q) get.key).join) ∧
      (writes get.began = writes get.past →
        get.answer = .ok (latest (writes get.began) get.key).join) := by
  obtain ⟨c, key, answer, past, returned⟩ := get
  obtain ⟨s₁, s₂, before, -, taken⟩ := run.emitted returned
  have answered := dirty_answer (layers_run before) (reads_run before)
    (calm_dirty before c calm) taken
  refine ⟨answered, ?_⟩
  intro idle
  obtain ⟨q, inside, same⟩ := answered
  rw [writes_between inside idle, ← idle] at same
  exact same

omit [DecidableEq Client] in
/-- A stop that is not lossless forgets what it carried: at once such a key reads as
it did at the landed segments. -/
theorem lossy_stop_forgets {trace : Trace Client Path} {s : State Client Path}
    (layers : Layers trace s) (key : Key) (carried : key ∈ s.inFlight.keys)
    (missed : key ∉ s.store.buf.keys) (listing : List Path)
    (lists : ListsAscending s.objects listing) :
    s.store.get (.ok listing) (fetch s.objects) key .Memory =
      .ok (latest (writes (durableAt trace)) key).join := by
  have unbuffered : s.store.buf.lookup key = none :=
    AList.lookup_eq_none.mpr fun member => missed (AList.mem_keys.mp member)
  have cold : s.store.immutable_buf.isEmpty = true := by
    rcases layers.apart with empty | grounded
    · exact empty
    · exact absurd carried (not_mem_keys_of_isEmpty _ grounded key)
  have thawed : s.store.immutable_buf.lookup key = none := tableOf_empty cold key
  simp only [EmbeddedKvStore.get, unbuffered, thawed]
  exact layers.get_listed key listing lists

/-- A failed put whose key was written again in flight, a flush dropped after its
freeze, and a Memory get. -/
def rewrittenTrace : Trace Bool Nat :=
  [.getReturned false "k" .Memory (.ok (some [2])), .bufMissed false,
    .getCalled false "k" .Memory, .dropped true, .frozen true, .gateTaken true,
    .flushCalled true, .putFailed true, .put false "k" [2], .taken true, .frozen true,
    .gateTaken true, .flushCalled true, .put false "k" [1]]

theorem memory_get_after_stops_rewritten :
    (∃ s, Run system losslessStop rewrittenTrace s) ∧
      ∃ get : GetCall .Memory rewrittenTrace, get.answer = .ok (some [2]) ∧
        (.ok (some [2]) : Except IoError Value) =
          .ok (latest (writes get.began) get.key).join := by
  have start : Run system losslessStop [] (initial : State Bool Nat) := .start rfl
  have flying := ((((start.step (.put false "k" [1] rfl) (by decide)).step
    (.flushCalled true rfl) (by decide)).step
    (.gateTaken true rfl rfl) (by decide)).step
    (.frozen true rfl rfl) (by decide)).step
    (.taken true 1 rfl rfl (by decide)) (by decide)
  have stopped := (((((flying.step (.put false "k" [2] rfl) (by decide)).step
    (.putFailed true rfl) (by decide)).step
    (.flushCalled true rfl) (by decide)).step
    (.gateTaken true rfl rfl) (by decide)).step
    (.frozen true rfl rfl) (by decide)).step
    (.dropped true (Or.inr (Or.inl rfl))) (by decide)
  have run : ∃ s, Run system losslessStop rewrittenTrace s := ⟨_, ((stopped.step
    (.getCalled false "k" .Memory rfl) (by decide)).step
    (.bufMissed false rfl rfl) (by decide)).step
    (.immutableFound false rfl rfl) (by decide)⟩
  let get : GetCall .Memory rewrittenTrace :=
    ⟨false, "k", .ok (some [2]), rewrittenTrace.tail, List.suffix_refl _⟩
  refine ⟨run, get, rfl, ?_⟩
  obtain ⟨s, run⟩ := run
  have calm : ∀ q, Between get.began q get.past → ∀ other, flushing other q = false := by
    intro q inside other
    obtain ⟨n, bound, rfl⟩ := inside.drop
    clear inside
    revert other
    revert n
    decide
  exact (memory_get_after_stops run get calm).2 rfl

/-- Put, a flush whose put fails, and a Memory get. -/
def failedTrace : Trace Bool Nat :=
  [.getReturned true "k" .Memory (.ok none), .listed true, .immutableMissed true, .bufMissed true,
    .getCalled true "k" .Memory, .putFailed true, .taken true, .frozen true, .gateTaken true,
    .flushCalled true, .put true "k" [1]]

/-- The map that a failed put carried is dropped with it: the put of its key is lost
although no flush is in progress any more. -/
theorem stopped_flush_loses_put :
    (∃ s, Run system anyStep failedTrace s) ∧
      ∃ get : GetCall .Memory failedTrace,
        (∀ q, Between get.began q get.past → ∀ other, flushing other q = false) ∧
          get.key = "k" ∧ get.answer = .ok none ∧
            ∀ q, Between get.began q get.past →
              get.answer ≠ .ok (latest (writes q) get.key).join := by
  have start : Run system anyStep [] (initial : State Bool Nat) := .start rfl
  have failed := (((((start.step (.put true "k" [1] rfl) trivial).step
    (.flushCalled true rfl) trivial).step
    (.gateTaken true rfl rfl) trivial).step
    (.frozen true rfl rfl) trivial).step
    (.taken true 1 rfl rfl (by decide)) trivial).step
    (.putFailed true rfl) trivial
  have run := ((((failed.step (.getCalled true "k" .Memory rfl) trivial).step
    (.bufMissed true rfl rfl) trivial).step
    (.immutableMissed true rfl rfl) trivial).step
    (.listed true [] rfl ⟨List.Perm.refl _, List.Pairwise.nil⟩) trivial).step
    (.scanEnded true rfl) trivial
  let get : GetCall .Memory failedTrace :=
    ⟨true, "k", .ok none, failedTrace.tail, List.suffix_refl _⟩
  refine ⟨⟨_, run⟩, get, ?_, rfl, rfl, ?_⟩
  · intro q inside other
    obtain ⟨n, bound, rfl⟩ := inside.drop
    clear inside
    revert other
    revert n
    decide
  · intro q inside
    rw [writes_between inside rfl]
    decide

end Calm

end FizzbeeMbt.RustStore
