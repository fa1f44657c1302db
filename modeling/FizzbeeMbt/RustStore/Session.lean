import FizzbeeMbt.RustStore.DurableReads
import Mathlib.Order.Monotone.Defs

/-! One caller at a time on a Rust store: its methods as functions, and the run of the
machine that a sequence of calls is. -/

namespace FizzbeeMbt.RustStore

open FizzbeeMbt.Maps FizzbeeMbt.Deltas FizzbeeMbt.Runs

inductive Op where
  | put (key : Key) (value : RawValue)
  | delete (key : Key)
  | flush

/-- A store, its objects, and how many names `Ulid::new` has made. -/
structure Session (Path : Type) where
  store : EmbeddedKvStore
  objects : ObjectStore Path
  ulids : Nat

variable {Path : Type} [LinearOrder Path]

def Session.apply (names : Nat → Path) (session : Session Path) : Op → Session Path
  | .put key value => { session with store := session.store.put key value }
  | .delete key => { session with store := session.store.delete key }
  | .flush =>
      let (_, store, objects) :=
        session.store.flush session.objects (names session.ulids) (.ok ())
      { store := store
        objects := objects
        ulids := if session.store.freeze_internal.2.take_immutable.isSome
          then session.ulids + 1 else session.ulids }

/-- The session after the calls, newest call first. -/
def session (names : Nat → Path) : List Op → Session Path
  | [] => ⟨.new, ∅, 0⟩
  | op :: earlier => (session names earlier).apply names op

def Op.write : Op → Option (Key × Value)
  | .put key value => some (key, some value)
  | .delete key => some (key, none)
  | .flush => none

def opWrites (ops : List Op) : History Key RawValue := ops.filterMap Op.write

/-- The puts and deletes that a completed flush has persisted. -/
def persisted : List Op → History Key RawValue
  | [] => []
  | .flush :: earlier => opWrites earlier
  | _ :: earlier => persisted earlier

def lastName (names : Nat → Path) : Nat → Option Path
  | 0 => none
  | count + 1 => some (names count)

/-- A machine at rest in the state of a session. -/
def atRest (names : Nat → Path) (now : Session Path) : State Unit Path :=
  { store := now.store
    objects := now.objects
    lastUlid := lastName names now.ulids
    flush_gate := none
    thread := fun _ => .idle }

theorem fresh_name (names : Nat → Path) (increasing : StrictMono names) (count : Nat) :
    ∀ last ∈ lastName names count, last < names count := by
  intro last found
  cases count with
  | zero => cases found
  | succ count =>
      obtain rfl := Option.some.inj found
      exact increasing (Nat.lt_succ_self count)

omit [LinearOrder Path] in
theorem only_move (s : State Unit Path) (thread : Thread Path) :
    s.move () thread = { s with thread := fun _ => thread } := by
  have all : Function.update s.thread () thread = fun _ => thread := by
    funext c
    exact Function.update_self () thread s.thread
  rw [State.move, all]

theorem atRest_empty {names : Nat → Path} {now : Session Path} {trace : Trace Unit Path}
    (run : Run system faultFree trace (atRest names now)) :
    now.store.immutable_buf.isEmpty = true := by
  rcases (owned_run run).frozen with empty | ⟨c, taking, -⟩
  · exact empty
  · cases taking

/-- A flush call with nothing to freeze, as the machine takes it. -/
theorem idle_flush_run {names : Nat → Path} {now : Session Path} {trace : Trace Unit Path}
    (run : Run system faultFree trace (atRest names now))
    (empty : now.store.buf.isEmpty = true) :
    Run system faultFree
      (.flushReturned () :: .tookNothing () :: .freezeSkipped () :: .gateTaken () ::
        .flushCalled () :: trace) (atRest names (now.apply names .flush)) := by
  have cold := atRest_empty run
  have unfrozen : now.store.freeze_internal.1 = false := by
    simp [EmbeddedKvStore.freeze_internal, empty]
  have kept := freeze_kept now.store unfrozen
  have nothing : now.store.freeze_internal.2.take_immutable = none := by
    simp [kept, EmbeddedKvStore.take_immutable, cold]
  have ended := ((((run.step (.flushCalled () rfl) ⟨rfl, rfl⟩).step
    (.gateTaken () (by simp) rfl) ⟨rfl, rfl⟩).step
    (.freezeSkipped () (by simp) unfrozen empty) ⟨rfl, rfl⟩).step
    (.tookNothing () (by simp) nothing) ⟨rfl, rfl⟩).step
    (.flushReturned () (by simp)) ⟨rfl, rfl⟩
  convert ended using 1
  simp [only_move, State.openGate, atRest, Session.apply, EmbeddedKvStore.flush, nothing]

/-- A flush call that freezes, as the machine takes it. -/
theorem busy_flush_run {names : Nat → Path} {now : Session Path} {trace : Trace Unit Path}
    (increasing : StrictMono names) (run : Run system faultFree trace (atRest names now))
    (filled : now.store.buf.isEmpty = false) :
    Run system faultFree
      (.flushReturned () :: .landed () (names now.ulids) :: .taken () :: .frozen () ::
        .gateTaken () :: .flushCalled () :: trace) (atRest names (now.apply names .flush)) := by
  have did_freeze : now.store.freeze_internal.1 = true := by
    simp [EmbeddedKvStore.freeze_internal, filled, atRest_empty run]
  have took : now.store.freeze_internal.2.take_immutable = some (now.store.buf, .new) := by
    rw [(freeze_moved now.store did_freeze).1]
    simp [EmbeddedKvStore.take_immutable, filled, EmbeddedKvStore.new]
  have ended := (((((run.step (.flushCalled () rfl) ⟨rfl, rfl⟩).step
    (.gateTaken () (by simp) rfl) ⟨rfl, rfl⟩).step
    (.frozen () (by simp) did_freeze) ⟨rfl, rfl⟩).step
    (.taken () (names now.ulids) (by simp) took (fresh_name names increasing now.ulids))
      ⟨rfl, rfl⟩).step
    (.landed () (by simp : _ = Thread.flushPutting (names now.ulids) now.store.buf)) ⟨rfl, rfl⟩).step
    (.flushReturned () (by simp)) ⟨rfl, rfl⟩
  convert ended using 1
  simp [only_move, State.openGate, atRest, Session.apply, EmbeddedKvStore.flush, took, lastName]

/-- A sequence of calls is a run of the machine, which ends with every write in the
history and everything persisted behind the durable mark. -/
theorem session_run (names : Nat → Path) (increasing : StrictMono names) (ops : List Op) :
    ∃ trace, Run system faultFree trace (atRest names (session names ops)) ∧
      writes trace = opWrites ops ∧ writes (durableAt trace) = persisted ops := by
  induction ops with
  | nil => exact ⟨[], .start rfl, rfl, rfl⟩
  | cons op earlier ih =>
      obtain ⟨trace, run, written, landed⟩ := ih
      cases op with
      | put key value =>
          refine ⟨.put () key value :: trace, run.step (.put () key value rfl) ⟨rfl, rfl⟩,
            ?_, landed⟩
          exact congrArg (List.cons (key, some value)) written
      | delete key =>
          refine ⟨.delete () key :: trace, run.step (.delete () key rfl) ⟨rfl, rfl⟩, ?_, landed⟩
          exact congrArg (List.cons (key, none)) written
      | flush =>
          cases filled : (session names earlier).store.buf.isEmpty with
          | true =>
              refine ⟨_, idle_flush_run run filled, written, ?_⟩
              have layers := layers_run (lossless_run run)
              have settled := layers.settled (atRest_empty run) rfl
              exact (congrArg writes settled).trans ((layers.drained filled).trans written)
          | false => exact ⟨_, busy_flush_run increasing run filled, written, written⟩

/-- The puts and deletes a get of the session reports on. -/
def visible (ops : List Op) (level : DurabilityLevel) : History Key RawValue :=
  match level with
  | .Remote => persisted ops
  | .Memory => opWrites ops

theorem session_get (names : Nat → Path) (increasing : StrictMono names) (ops : List Op)
    (listing : List Path) (lists : ListsAscending (session names ops).objects listing)
    (key : Key) (level : DurabilityLevel) :
    (session names ops).store.get (.ok listing) (fetch (session names ops).objects) key level =
      .ok (latest (visible ops level) key).join := by
  obtain ⟨trace, run, written, landed⟩ := session_run names increasing ops
  have layers := layers_run (lossless_run run)
  have cold := atRest_empty run
  have settled := layers.settled cold rfl
  have listed : get_listed (.ok listing) (fetch (session names ops).objects) key =
      .ok (latest (persisted ops) key).join :=
    landed ▸ layers.get_listed key listing lists
  have buffered : Delta (tableOf (session names ops).store.buf) (persisted ops) (opWrites ops) := by
    have delta := layers.buffered
    rw [← settled, landed, written] at delta
    exact delta
  cases level with
  | Remote => exact listed
  | Memory =>
      have frozen := (isEmpty_iff _).mp cold key
      simp only [EmbeddedKvStore.get, visible]
      cases live : (session names ops).store.buf.lookup key with
      | some value =>
          have hit : latest (opWrites ops) key = some value := buffered.hit live
          rw [hit]
          rfl
      | none =>
          have miss : latest (opWrites ops) key = latest (persisted ops) key := buffered.miss live
          rw [miss]
          simp only [show (session names ops).store.immutable_buf.lookup key = none from frozen]
          exact listed

/-- The loop of a get, as the machine takes it. -/
theorem scan_run {names : Nat → Path} {now : Session Path} {key : Key} {level : DurabilityLevel}
    (remaining : List Path) {trace : Trace Unit Path}
    (run : Run system faultFree trace
      { atRest names now with thread := fun _ => .getReading key level remaining }) :
    ∃ past, trace <:+ past ∧ writes past = writes trace ∧
      Run system faultFree
        (.getReturned () key level (scan_segments (fetch now.objects) key remaining) :: past)
        (atRest names now) := by
  induction remaining generalizing trace with
  | nil =>
      refine ⟨trace, List.suffix_refl _, rfl, ?_⟩
      have ended := run.step (.scanEnded () rfl) ⟨rfl, rfl⟩
      rw [only_move] at ended
      exact ended
  | cons path rest ih =>
      cases look : look_in_segment (fetch now.objects path) key with
      | some answer =>
          refine ⟨trace, List.suffix_refl _, rfl, ?_⟩
          have ended := run.step (.segmentAnswered () rfl look) ⟨rfl, rfl⟩
          rw [only_move] at ended
          simp only [scan_segments, look]
          exact ended
      | none =>
          have passed := run.step (.segmentPassed () rfl look) ⟨rfl, rfl⟩
          rw [only_move] at passed
          obtain ⟨past, later, silent, ended⟩ := ih passed
          refine ⟨past, (List.suffix_cons _ _).trans later, silent, ?_⟩
          simp only [scan_segments, look]
          exact ended

/-- The listing and the loop of a get, as the machine takes them. -/
theorem listed_run {names : Nat → Path} {now : Session Path} {key : Key}
    {level : DurabilityLevel} {trace : Trace Unit Path}
    (run : Run system faultFree trace
      { atRest names now with thread := fun _ => .getListing key level })
    (listing : List Path) (lists : ListsAscending now.objects listing) :
    ∃ past, trace <:+ past ∧ writes past = writes trace ∧
      Run system faultFree
        (.getReturned () key level (get_listed (.ok listing) (fetch now.objects) key) :: past)
        (atRest names now) := by
  have listed := run.step (.listed () listing rfl lists) ⟨rfl, rfl⟩
  rw [only_move] at listed
  obtain ⟨past, later, silent, ended⟩ := scan_run _ listed
  exact ⟨past, (List.suffix_cons _ _).trans later, silent, ended⟩

/-- A get that nothing interleaves with returns what the function returns. -/
theorem get_run {names : Nat → Path} {now : Session Path} {trace : Trace Unit Path}
    (run : Run system faultFree trace (atRest names now)) (key : Key) (level : DurabilityLevel)
    (listing : List Path) (lists : ListsAscending now.objects listing) :
    ∃ past, trace <:+ past ∧ writes past = writes trace ∧
      Run system faultFree
        (.getReturned () key level
          (now.store.get (.ok listing) (fetch now.objects) key level) :: past)
        (atRest names now) := by
  have called := run.step (.getCalled () key level rfl) ⟨rfl, rfl⟩
  rw [only_move] at called
  have order : trace <:+ .getCalled () key level :: trace := List.suffix_cons _ _
  cases level with
  | Remote =>
      obtain ⟨past, later, silent, ended⟩ := listed_run called listing lists
      exact ⟨past, order.trans later, silent, ended⟩
  | Memory =>
      unfold EmbeddedKvStore.get
      cases buffered : now.store.buf.lookup key with
      | some value =>
          refine ⟨_, order, rfl, ?_⟩
          have ended := called.step (.bufFound () rfl buffered) ⟨rfl, rfl⟩
          rw [only_move] at ended
          exact ended
      | none =>
          have missed := called.step (.bufMissed () rfl buffered) ⟨rfl, rfl⟩
          rw [only_move] at missed
          have order' := order.trans (List.suffix_cons (.bufMissed ()) _)
          cases frozen : now.store.immutable_buf.lookup key with
          | some value =>
              refine ⟨_, order', rfl, ?_⟩
              have ended := missed.step (.immutableFound () rfl frozen) ⟨rfl, rfl⟩
              rw [only_move] at ended
              exact ended
          | none =>
              have cold := missed.step (.immutableMissed () rfl frozen) ⟨rfl, rfl⟩
              rw [only_move] at cold
              obtain ⟨past, later, silent, ended⟩ := listed_run cold listing lists
              exact ⟨past, order'.trans ((List.suffix_cons _ _).trans later), silent, ended⟩

end FizzbeeMbt.RustStore
