import FizzbeeMbt.FizzStore.DirtyRead
import FizzbeeMbt.GoStore.DurableReads
import FizzbeeMbt.Lib.Refinement

/-! The Go store with concurrent clients refines the specification: its runs without
failing writes are runs of `embedded_kvstore.fizz`, and its Gets answer as `get` does
there. -/

namespace FizzbeeMbt.GoStore

open FizzbeeMbt.Maps FizzbeeMbt.Deltas FizzbeeMbt.Runs

/-- The specification over the keys and values of the store; `none` is its `NOT_FOUND`. -/
abbrev SpecState := FizzStore.State Bytes (Option Bytes)

abbrev SpecEvent := FizzStore.Event Bytes (Option Bytes)

abbrev specification : System SpecState SpecEvent := FizzStore.system none

/-- The actions of the specification that a step of the store amounts to, newest
first: the two critical sections and the blob write of a Flush are its three steps, a
Flush of an empty buffer is all three at once. -/
def specEvents {Client : Type} : Event Client → List SpecEvent
  | .put _ key value => [.put key (some value)]
  | .delete _ key => [.put key none]
  | .frozen _ => [.freeze]
  | .blobWritten _ _ => [.write]
  | .flushReturned _ => [.clear]
  | .flushSkipped _ => [.clear, .write, .freeze]
  | _ => []

/-- A blob holds what the specification keeps as the content of one file. -/
def Stores (data : Data) (file : Map Bytes (Option Bytes)) : Prop :=
  ∃ kvPairs, Unmarshal data = some kvPairs ∧
    ∀ k, kvPairs.lookup k = (file.lookup k).map encodeEntry

theorem stores_marshal {bufMap : Map Bytes Bytes} {file : Map Bytes (Option Bytes)}
    (encodes : Encodes bufMap fun k => file.lookup k)
    (valid : ∀ k, file.lookup k ≠ none → Utf8Valid k) : Stores (Marshal bufMap) file := by
  have keys : ∀ k, bufMap.lookup k ≠ none → Utf8Valid k := by
    intro k present
    apply valid k
    intro absent
    exact present (by simp [encodes k, absent])
  obtain ⟨kvPairs, unmarshalled, same⟩ := unmarshal_marshal bufMap keys
  exact ⟨kvPairs, unmarshalled, fun k => (same k).trans (encodes k)⟩

theorem Stores.scanBlob {data : Data} {file : Map Bytes (Option Bytes)}
    (stores : Stores data file) (k : Bytes) :
    scanBlob (.ok data) k = (file.lookup k).map fun value => answerOf (some value) := by
  obtain ⟨kvPairs, unmarshalled, same⟩ := stores
  simp only [GoStore.scanBlob, unmarshalled, same k, Option.map_map, Function.comp_def,
    decodeEntry_encodeEntry]

variable {Client : Type}

/-- A state of the specification stands for a state of the store. -/
structure Represents (trace : Trace Client) (s : State Client) (a : SpecState) : Prop where
  last_put : ∀ k, a._last_put.lookup k = latest (writes trace) k
  buf : a.writer.buf = s.store.buffer
  immutable_buf : ∀ k, (s.store.immutableBuf.bind fun immutableBuf => immutableBuf.lookup k) =
    (a.writer.immutable_buf.lookup k).map fun value => some (encodeEntry value)
  valid : ∀ k, (a.writer.buf.lookup k ≠ none ∨ a.writer.immutable_buf.lookup k ≠ none) →
    Utf8Valid k
  next_index : s.store.flushID + 1 = a.writer.next_index + if a.flush = .frozen then 1 else 0
  segments : ∀ i, 0 < i → i < a.writer.next_index →
    ∃ data, s.bucket (blobKey i) = some data ∧ Stores data (a.store.Read (FizzStore.filename i))
  unwritten : ∀ i, a.writer.next_index ≤ i → s.bucket (blobKey i) = none
  idle : (∀ c, (s.thread c).pastFreeze = false) → a.flush = .idle
  writing : ∀ c flushID bufMap, s.thread c = .flushWriting flushID bufMap →
    a.flush = .frozen ∧ flushID = a.writer.next_index ∧
      a.writer.immutable_buf.isEmpty = false ∧
      Encodes bufMap fun k => a.writer.immutable_buf.lookup k
  clearing : ∀ c, s.thread c = .flushClearing → a.flush = .written

theorem represents_initial : Represents ([] : Trace Client) initial FizzStore.Init where
  last_put _ := rfl
  buf := rfl
  immutable_buf _ := rfl
  valid k present := by rcases present with held | held <;> exact absurd rfl held
  next_index := rfl
  segments i positive below := absurd positive (Nat.not_lt.mpr (Nat.le_of_lt_succ below))
  unwritten _ _ := rfl
  idle _ := rfl
  writing c flushID bufMap at' := by cases at'
  clearing c at' := by cases at'

section Reading

variable {trace : Trace Client} {s : State Client} {a : SpecState}

theorem Represents.scanBlobs (represents : Represents trace s a) (k : Bytes) (n : Nat)
    (below : n < a.writer.next_index) :
    scanBlobs s.bucket.ReadAll k n = answerOf (a.store.scan k n) := by
  induction n with
  | zero => rfl
  | succ n ih =>
      obtain ⟨data, written, stores⟩ := represents.segments (n + 1) (Nat.succ_pos n) below
      have read : s.bucket.ReadAll (blobKey (n + 1)) = .ok data := by
        simp [Bucket.ReadAll, written]
      rw [FizzStore.scan_succ]
      simp only [GoStore.scanBlobs, read, stores.scanBlob k]
      cases (a.store.Read (FizzStore.filename (n + 1))).lookup k with
      | none => exact ih (Nat.lt_of_succ_lt below)
      | some value => rfl

/-- The blobs under the counter answer as the files do, also while the newest is yet to
be written. -/
theorem Represents.files (represents : Represents trace s a) (positive : 1 ≤ a.writer.next_index)
    (k : Bytes) : GoStore.scanBlobs s.bucket.ReadAll k s.store.flushID =
      answerOf (a.store.scan k (a.writer.next_index - 1)) := by
  have number := represents.next_index
  have landed := represents.scanBlobs k (a.writer.next_index - 1) (by omega)
  by_cases frozen : a.flush = .frozen
  · have top : s.store.flushID = a.writer.next_index := by simpa [frozen] using number
    have absent : s.bucket.ReadAll (blobKey s.store.flushID) = .error .notFound := by
      simp [Bucket.ReadAll, top, represents.unwritten _ (Nat.le_refl _)]
    rw [scanBlobs_absent _ k _ absent, top]
    exact landed
  · have top : s.store.flushID = a.writer.next_index - 1 := by
      simp only [if_neg frozen] at number
      omega
    rw [top]
    exact landed

theorem answerOf_getD (found : Option (Option Bytes)) :
    answerOf (some (found.getD none)) = answerOf found := by
  rcases found with _ | _ | value <;> rfl

end Reading

section Steps

variable [DecidableEq Client] {trace : Trace Client} {s s' : State Client} {a : SpecState}

/-- A step without failing write keeps a Flush that is past its freeze where it is,
unless it is that Flush's own. -/
theorem pastFreeze_quiet {event : Event Client} (taken : Step s event s')
    (quiet : isQuiet event = true) (lands : isWriteFailed event = false) (c : Client)
    (past : (s.thread c).pastFreeze = true) : s'.thread c = s.thread c := by
  by_cases acts : c = actor event
  · subst acts
    cases taken <;> simp_all [isQuiet, isWriteFailed, actor, Thread.pastFreeze]
  · exact step_thread_other taken c acts

theorem represents_quiet {event : Event Client} (represents : Represents trace s a)
    (taken : Step s event s') (quiet : isQuiet event = true)
    (lands : isWriteFailed event = false) : Represents (event :: trace) s' a := by
  obtain ⟨store, bucket, flushers⟩ := step_quiet taken quiet
  have silent : writeOf event = none := by cases event <;> simp_all [isQuiet, writeOf]
  have same {c : Client} {thread : Thread} (at' : s'.thread c = thread)
      (holds : thread.pastFreeze = true) : s.thread c = thread := by
    have held : (s'.thread c).holdsFlushMutex = true := by
      rw [at']
      cases thread <;> first | rfl | cases holds
    rcases flushers c held with unmoved | locked
    · exact unmoved ▸ at'
    · rw [← at', locked] at holds
      cases holds
  constructor
  · rw [writes_quiet event trace silent]
    exact represents.last_put
  · rw [store]
    exact represents.buf
  · rw [store]
    exact represents.immutable_buf
  · exact represents.valid
  · rw [store]
    exact represents.next_index
  · rw [bucket]
    exact represents.segments
  · rw [bucket]
    exact represents.unwritten
  · intro outside
    apply represents.idle
    intro c
    by_contra past
    have held : (s.thread c).pastFreeze = true := by simpa using past
    have unmoved := pastFreeze_quiet taken quiet lands c held
    rw [← unmoved, outside c] at held
    cases held
  · intro c flushID bufMap at'
    exact represents.writing c flushID bufMap (same at' rfl)
  · intro c at'
    exact represents.clearing c (same at' rfl)

omit [DecidableEq Client] in
/-- A Put or a Delete of the store is a Put of the specification. -/
theorem represents_write {event : Event Client} (represents : Represents trace s a) (k : Bytes)
    (value : Option Bytes) (valid : Utf8Valid k) (wrote : writeOf event = some (k, value)) :
    Represents (event :: trace)
      { s with store := { s.store with buffer := s.store.buffer.insert k value } }
      { a with writer := a.writer.Put k value, _last_put := a._last_put.insert k value } := by
  have written : writes (event :: trace) = (k, value) :: writes trace := by simp [writes, wrote]
  constructor
  · intro k'
    rw [written, latest_cons, lookup_insert_if, represents.last_put k']
  · simp only [FizzStore.Writer.Put, represents.buf]
  · exact represents.immutable_buf
  · intro k' present
    by_cases same : k' = k
    · exact same ▸ valid
    · apply represents.valid k'
      simpa only [FizzStore.Writer.Put, lookup_insert_if, if_neg same] using present
  · exact represents.next_index
  · exact represents.segments
  · exact represents.unwritten
  · exact represents.idle
  · exact represents.writing
  · exact represents.clearing

omit [DecidableEq Client] in
/-- While `c` holds `flushMutex` before its freeze, no Flush is past its own. -/
theorem none_pastFreeze (locks : Locks s) {c : Client} (locked : s.thread c = .flushLocked)
    (other : Client) : (s.thread other).pastFreeze = false := by
  by_contra past
  have second : (s.thread other).holdsFlushMutex = true := by
    cases moved : s.thread other <;> simp_all [Thread.pastFreeze, Thread.holdsFlushMutex]
  have same := locks.flusher c other (by rw [locked]; rfl) second
  rw [same, locked] at past
  exact past rfl

theorem represents_frozen {c : Client} (represents : Represents trace s a) (locks : Locks s)
    (locked : s.thread c = .flushLocked) (filled : s.store.buffer.isEmpty = false)
    (cold : a.writer.immutable_buf.isEmpty = true) :
    Represents (.frozen c :: trace)
      { s.move c (.flushWriting s.store.freeze.2.flushID s.store.freeze.1) with
        store := s.store.freeze.2 }
      { a with writer := a.writer.freeze, flush := .frozen } := by
  have point := represents.idle (none_pastFreeze locks locked)
  have number := represents.next_index
  simp only [point, reduceCtorEq, if_false] at number
  have moved : a.writer.freeze =
      { a.writer with immutable_buf := s.store.buffer, buf := ∅ } := by
    simp [FizzStore.Writer.freeze, represents.buf, filled, cold]
  have holds : (s.thread c).holdsFlushMutex = true := by rw [locked]; rfl
  rw [moved]
  constructor
  · exact represents.last_put
  · rfl
  · intro k
    simp only [KVStore.freeze, Option.bind_some, lookup_rebuild, Option.map_map]
    rfl
  · intro k present
    rcases present with held | held
    · exact absurd rfl held
    · exact represents.valid k (Or.inl (represents.buf ▸ held))
  · simp only [KVStore.freeze, if_pos]
    omega
  · exact represents.segments
  · exact represents.unwritten
  · intro outside
    have past := outside c
    simp [State.move, Thread.pastFreeze] at past
  · intro other flushID bufMap at'
    by_cases acts : other = c
    · subst acts
      simp only [move_thread_self, Thread.flushWriting.injEq] at at'
      obtain ⟨rfl, rfl⟩ := at'
      refine ⟨rfl, ?_, filled, freeze_encodes s.store⟩
      simp only [KVStore.freeze]
      simpa using number
    · cases locks.sole_flusher c other holds _ _ acts at'
  · intro other at'
    by_cases acts : other = c
    · subst acts
      simp at at'
    · cases locks.sole_flusher c other holds _ _ acts at'

/-- The blob that lands is the JSON of the file the specification writes. -/
theorem represents_landed {c : Client} {flushID : Nat} {bufMap : Map Bytes Bytes}
    (represents : Represents trace s a) (locks : Locks s)
    (writing : s.thread c = .flushWriting flushID bufMap) :
    Represents (.blobWritten c flushID :: trace)
      { s.move c .flushClearing with
        bucket := s.bucket.WriteAll (blobKey flushID) (Marshal bufMap) }
      { a with
        writer := (a.writer.write a.store).1
        store := (a.writer.write a.store).2
        flush := .written } := by
  obtain ⟨point, rfl, filled, encodes⟩ := represents.writing c flushID bufMap writing
  have number := represents.next_index
  simp only [point, if_pos] at number
  have holds : (s.thread c).holdsFlushMutex = true := by rw [writing]; rfl
  have wrote : a.writer.write a.store =
      ({ a.writer with next_index := a.writer.next_index + 1 },
        a.store.Write (FizzStore.filename a.writer.next_index) a.writer.immutable_buf) := by
    simp [FizzStore.Writer.write, filled]
  rw [wrote]
  constructor
  · exact represents.last_put
  · exact represents.buf
  · exact represents.immutable_buf
  · exact represents.valid
  · simpa [State.move] using number
  · intro i positive below
    rcases Nat.lt_succ_iff_lt_or_eq.mp below with older | rfl
    · obtain ⟨data, written, stores⟩ := represents.segments i positive older
      refine ⟨data, ?_, ?_⟩
      · simp [Bucket.WriteAll, written, Nat.ne_of_lt older]
      · have differ : FizzStore.filename i ≠ FizzStore.filename a.writer.next_index :=
          fun same => absurd (FizzStore.filename_injective same) (Nat.ne_of_lt older)
        simp only [FizzStore.read_write_other _ _ _ _ differ]
        exact stores
    · refine ⟨Marshal bufMap, ?_, ?_⟩
      · simp [Bucket.WriteAll]
      · simp only [FizzStore.read_write_same]
        exact stores_marshal encodes fun k held => represents.valid k (Or.inr held)
  · intro i beyond
    have above : a.writer.next_index < i := beyond
    simp [Bucket.WriteAll, Nat.ne_of_gt above, represents.unwritten i (Nat.le_of_lt above)]
  · intro outside
    have past := outside c
    simp [State.move, Thread.pastFreeze] at past
  · intro other flushID bufMap at'
    by_cases acts : other = c
    · subst acts
      simp at at'
    · cases locks.sole_flusher c other holds _ _ acts at'
  · intro _ _
    rfl

theorem represents_cleared {c : Client} (represents : Represents trace s a) (locks : Locks s)
    (clearing : s.thread c = .flushClearing) :
    Represents (.flushReturned c :: trace)
      { (s.move c .idle).unlockFlush with store := s.store.clearImmutable }
      { a with writer := a.writer.clear, flush := .idle } := by
  have point := represents.clearing c clearing
  have number := represents.next_index
  have holds : (s.thread c).holdsFlushMutex = true := by rw [clearing]; rfl
  constructor
  · exact represents.last_put
  · exact represents.buf
  · intro k
    rfl
  · intro k present
    rcases present with held | held
    · exact represents.valid k (Or.inl held)
    · exact absurd rfl held
  · simpa [point, KVStore.clearImmutable, FizzStore.Writer.clear] using number
  · exact represents.segments
  · exact represents.unwritten
  · intro _
    rfl
  · intro other flushID bufMap at'
    by_cases acts : other = c
    · subst acts
      simp [State.unlockFlush] at at'
    · cases locks.sole_flusher c other holds _ _ acts at'
  · intro other at'
    by_cases acts : other = c
    · subst acts
      simp [State.unlockFlush] at at'
    · cases locks.sole_flusher c other holds _ _ acts at'

/-- A Flush of the specification with nothing to flush. -/
theorem flush_nothing (point : a.flush = .idle) (empty : a.writer.buf.isEmpty = true)
    (cold : a.writer.immutable_buf.isEmpty = true) :
    Run (specification.resumed a) anyStep [.clear, .write, .freeze] a := by
  obtain ⟨⟨buf, immutable_buf, next_index⟩, store, _last_put, flush⟩ := a
  simp only at point empty cold
  subst point
  have cleared : immutable_buf = ∅ := AList.ext (List.isEmpty_iff.mp cold)
  subst cleared
  have freezes : specification.step ⟨⟨buf, ∅, next_index⟩, store, _last_put, .idle⟩ .freeze _ :=
    .freeze rfl
  have frozen := one specification freezes
  simp only [FizzStore.Writer.freeze, empty, Bool.true_or, if_true] at frozen
  exact ((frozen.step (.write rfl) trivial).step (.clear rfl) trivial)

end Steps

section Refinement

variable [DecidableEq Client]

/-- No write fails, and all keys are valid UTF-8. -/
def faultFreeUtf8 (trace : Trace Client) (s : State Client) (event : Event Client) : Prop :=
  faultFree trace s event ∧ ∀ key ∈ keyOf event, Utf8Valid key

theorem faultFreeUtf8_run {trace : Trace Client} {s : State Client}
    (run : Run system faultFree trace s) (keys : Utf8Keys trace) :
    Run system faultFreeUtf8 trace s := run.restrict keys

theorem simulates_specification :
    Simulation (system : System (State Client) (Event Client)) faultFreeUtf8 specification
      specEvents Represents where
  starts := by
    rintro s rfl
    exact ⟨FizzStore.Init, rfl, represents_initial⟩
  steps := by
    intro trace s event s' a before upto represents admitted taken
    obtain ⟨lands, valid⟩ := admitted
    have locks := locks_run before
    have layered := FizzStore.layered_run upto
    have faultless : Run system faultFree trace s :=
      before.refine fun _ _ _ _ _ admitted _ => admitted.1
    have step := taken
    cases taken with
    | put c key value idle free =>
        exact ⟨_, one _ (.put key (some value)),
          represents_write represents key (some value) (valid key rfl) rfl⟩
    | delete c key idle free =>
        exact ⟨_, one _ (.put key none), represents_write represents key none (valid key rfl) rfl⟩
    | frozen c locked free filled =>
        have point := represents.idle (none_pastFreeze locks locked)
        exact ⟨_, one _ (.freeze point),
          represents_frozen represents locks locked filled (layered.cold point)⟩
    | blobWritten c writing =>
        have point := (represents.writing c _ _ writing).1
        exact ⟨_, one _ (.write point), represents_landed represents locks writing⟩
    | flushReturned c clearing free =>
        have point := represents.clearing c clearing
        exact ⟨_, one _ (.clear point), represents_cleared represents locks clearing⟩
    | flushSkipped c locked free empty =>
        have point := represents.idle (none_pastFreeze locks locked)
        refine ⟨a, ?_, represents_quiet represents step rfl rfl⟩
        exact flush_nothing point (by rw [represents.buf, empty]) (layered.cold point)
    | writeFailed c writing => cases lands
    | _ => exact ⟨a, stay _ a, represents_quiet represents step rfl rfl⟩

def specTrace (trace : Trace Client) : List SpecEvent := trace.flatMap specEvents

/-- A Get that returned within the run. -/
structure GetReturn (trace : Trace Client) where
  c : Client
  key : Bytes
  durability : DurabilityLevel
  answer : Except GetError Bytes
  past : Trace Client
  returned : .getReturned c key durability answer :: past <:+ trace

/-- What `get` of the specification returns, as the store reports it. -/
def specGet (a : SpecState) (key : Bytes) (durability : DurabilityLevel) :
    Except GetError Bytes :=
  answerOf (some (a.writer.get none a.store key (durability = .DurabilityMemory)))

variable {trace : Trace Client} {s : State Client}

theorem represented (run : Run system faultFree trace s) (keys : Utf8Keys trace) :
    ∃ a, Run specification anyStep (specTrace trace) a ∧ Represents trace s a :=
  simulates_specification.run (faultFreeUtf8_run run keys)

omit [DecidableEq Client] in
theorem specGet_memory {a : SpecState} (upto : Run specification anyStep (specTrace trace) a)
    (represents : Represents trace s a) (key : Bytes) :
    specGet a key .DurabilityMemory = answerOf (latest (writes trace) key) := by
  have last := (FizzStore.layered_run upto).last key
  rw [represents.last_put key] at last
  simp only [specGet, decide_true, FizzStore.get_dirty, ← last]
  exact answerOf_getD _

theorem specGet_remote {a : SpecState} (upto : Run specification anyStep (specTrace trace) a)
    (represents : Represents trace s a) (layers : Layers trace s) (key : Bytes) :
    specGet a key .DurabilityRemote = answerOf (latest (writes (landedAt trace)) key) := by
  have files := represents.files (FizzStore.layered_run upto).numbered key
  rw [layers.segments key] at files
  rw [files]
  exact answerOf_getD _

theorem get_specified (run : Run system faultFree trace s) (keys : Utf8Keys trace)
    (get : GetReturn trace) :
    ∃ q a, Between (calledAt get.c get.past) q get.past ∧
      Run specification anyStep (specTrace q) a ∧
        get.answer = specGet a get.key get.durability := by
  obtain ⟨c, key, durability, answer, past, returned⟩ := get
  have lossless := lossless_of_faultFree run
  have within : past <:+ trace := (List.suffix_cons _ _).trans returned
  -- At an instant of the run the specification has come as far as the store.
  have instant : ∀ q, q <:+ trace → ∃ s a, Run specification anyStep (specTrace q) a ∧
      Represents q s a ∧ Layers q s := by
    intro q upto
    obtain ⟨s, before⟩ := run.past upto
    obtain ⟨a, specified, represents⟩ := represented before (keys.past upto)
    exact ⟨s, a, specified, represents, layers_run (lossless_of_faultFree before) (keys.past upto)⟩
  cases durability with
  | DurabilityMemory =>
      have order : calledAt c past <:+ lockedAt c past := by
        obtain ⟨s₁, s₂, before, -, taken⟩ := lossless.emitted returned
        have reads := reads_run before (keys.past within)
        apply reads.called c
        cases taken with
        | getFound c locked found => rw [locked]; rfl
        | blobAnswered c scanning answered => rw [scanning]; rfl
        | scanEnded c scanning => rw [scanning]; rfl
      have upto : lockedAt c past <:+ past := before_suffix _ past
      obtain ⟨s', a, specified, represents, -⟩ := instant _ (upto.trans within)
      refine ⟨lockedAt c past, a, ⟨order, upto⟩, specified, ?_⟩
      rw [specGet_memory specified represents]
      exact memory_answer lossless keys returned
  | DurabilityRemote =>
      obtain ⟨q, inside, answers⟩ := remote_answer lossless keys ⟨c, key, answer, past, returned⟩
      obtain ⟨s', a, specified, represents, layers⟩ := instant q (inside.2.trans within)
      refine ⟨q, a, inside, specified, ?_⟩
      rw [specGet_remote specified represents layers]
      exact answers

/-- The store refines the specification. Its run, with any number of clients, is one of
the specification, whose states it keeps in its buffers and, as JSON, in its blobs; and
each Get answers as `get` of the specification does at an instant of its call. -/
theorem refines_specification (run : Run system faultFree trace s) (keys : Utf8Keys trace) :
    (∃ a, Run specification anyStep (specTrace trace) a ∧ Represents trace s a) ∧
      ∀ get : GetReturn trace, ∃ q a, Between (calledAt get.c get.past) q get.past ∧
        Run specification anyStep (specTrace q) a ∧
          get.answer = specGet a get.key get.durability :=
  ⟨represented run keys, get_specified run keys⟩

/-- In the trace of a halted Flush the frozen key is read as the specification, its own
Flush halted, reads it. -/
theorem refines_specification_midFlush :
    specTrace midFlushTrace = [.put [108] (some [2]), .freeze, .put [107] (some [1])] ∧
      ∃ q a, q <:+ midFlushTrace ∧ Run specification anyStep (specTrace q) a ∧
        specGet a [107] .DurabilityMemory = .ok [1] := by
  obtain ⟨s, run⟩ := midFlush_run
  obtain ⟨q, a, inside, specified, answers⟩ := (refines_specification run (by decide)).2
    ⟨false, [107], .DurabilityMemory, .ok [1], _, List.suffix_refl _⟩
  exact ⟨rfl, q, a, inside.2.trans (List.suffix_cons _ _), specified, answers.symm⟩

end Refinement

end FizzbeeMbt.GoStore
