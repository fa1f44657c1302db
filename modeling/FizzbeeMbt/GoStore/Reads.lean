import FizzbeeMbt.GoStore.Layers

/-! What the Gets of the Go store answer, over runs whose freezes are lossless. -/

namespace FizzbeeMbt.GoStore

open FizzbeeMbt.Maps FizzbeeMbt.Deltas FizzbeeMbt.Runs

variable {Client : Type} [DecidableEq Client]

theorem memory_found {trace : Trace Client} {s : State Client} (layers : Layers trace s)
    (k : Bytes) (answer : Except GetError Bytes) (found : s.store.getMemory k = some answer) :
    answer = answerOf (latest (writes trace) k) := by
  cases frozen : s.store.immutableBuf with
  | none =>
      rw [getMemory_unfrozen _ _ frozen] at found
      obtain ⟨value, hit, rfl⟩ := Option.map_eq_some_iff.mp found
      rw [layers.buffered.hit hit]
  | some immutableBuf =>
      obtain ⟨bufMap, table, rfl, encodes, delta⟩ := layers.frozen _ frozen
      rw [getMemory_frozen _ bufMap table k frozen encodes] at found
      obtain ⟨value, hit, rfl⟩ := Option.map_eq_some_iff.mp found
      rw [layers.buffered k, delta k, ← Option.or_assoc, hit]
      rfl

/-- A key that neither buffer holds has not been written since the landed freeze. -/
theorem memory_missed {trace : Trace Client} {s : State Client} (layers : Layers trace s)
    (k : Bytes) (missed : s.store.getMemory k = none) :
    s.store.live k = none ∧
      latest (writes (landedAt trace)) k = latest (writes trace) k := by
  cases frozen : s.store.immutableBuf with
  | none =>
      rw [getMemory_unfrozen _ _ frozen] at missed
      have absent := Option.map_eq_none_iff.mp missed
      refine ⟨absent, ?_⟩
      rw [layers.buffered.miss absent, layers.settled frozen]
  | some immutableBuf =>
      obtain ⟨bufMap, table, rfl, encodes, delta⟩ := layers.frozen _ frozen
      rw [getMemory_frozen _ bufMap table k frozen encodes] at missed
      have absent := Option.or_eq_none_iff.mp (Option.map_eq_none_iff.mp missed)
      refine ⟨absent.1, ?_⟩
      rw [layers.buffered.miss absent.1, delta.miss absent.2]

/-- A scan that is still to read the segments from `i` down to 1. -/
structure Scan (trace : Trace Client) (s : State Client) (c : Client) (key : Bytes)
    (durability : DurabilityLevel) (i : Nat) : Prop where
  bound : i ≤ s.store.flushID
  memory : durability = .DurabilityMemory → s.store.getMemory key = none ∧
    scanBlobs s.bucket.ReadAll key i = answerOf (latest (writes trace) key)
  remote : ∃ q, Between (lockedAt c trace) q trace ∧
    scanBlobs s.bucket.ReadAll key i = answerOf (latest (writes (landedAt q)) key)

structure Reads (trace : Trace Client) (s : State Client) : Prop where
  unwritten : ∀ c, (s.thread c).holdsMu = true → writes (lockedAt c trace) = writes trace
  called : ∀ c, (s.thread c).holdsMu = true → calledAt c trace <:+ lockedAt c trace
  scanning : ∀ c key durability i, s.thread c = .getScanning key durability i →
    Scan trace s c key durability i

/-- While `c` holds `mu`, other clients change nothing but the bucket, and that
only by landing a blob. -/
theorem step_beside_reader {s s' : State Client} {event : Event Client} (locks : Locks s)
    (c : Client) (holds : (s.thread c).holdsMu = true) (differ : c ≠ actor event)
    (taken : Step s event s') :
    s'.store = s.store ∧ writeOf event = none ∧
      (s'.bucket = s.bucket ∨ ∃ writer flushID bufMap, event = .blobWritten writer flushID ∧
        s.thread writer = .flushWriting flushID bufMap ∧
        s'.bucket = s.bucket.WriteAll (blobKey flushID) (Marshal bufMap)) := by
  have held := locks.mu c holds
  have unique := locks.reader c (actor event) holds
  cases taken <;>
    simp_all [actor, writeOf, State.move, State.unlockMu, State.unlockFlush, Thread.holdsMu]

theorem marks_of_other (c : Client) (event : Event Client) (differ : c ≠ actor event) :
    isGetLockedBy c event = false ∧ isCalledBy c event = false := by
  cases event <;> simp_all [actor, isGetLockedBy, isCalledBy, eq_comm]

/-- A client that holds `mu` after its own step took it there or held it before. -/
theorem own_step_reader {s s' : State Client} {event : Event Client} (taken : Step s event s')
    (holds : (s'.thread (actor event)).holdsMu = true) :
    (∃ c, event = .getLocked c) ∨
      ((s.thread (actor event)).holdsMu = true ∧ writeOf event = none ∧
        isGetLockedBy (actor event) event = false ∧ isCalledBy (actor event) event = false) := by
  cases taken <;>
    simp_all [actor, writeOf, State.move, State.unlockMu, State.unlockFlush, Thread.holdsMu,
      isGetLockedBy, isCalledBy]

theorem scan_beside {trace : Trace Client} {s s' : State Client} {event : Event Client}
    (layers : Layers trace s) (layers' : Layers (event :: trace) s') (locks : Locks s)
    {c : Client} {key : Bytes} {durability : DurabilityLevel} {i : Nat}
    (scan : Scan trace s c key durability i) (holds : (s.thread c).holdsMu = true)
    (differ : c ≠ actor event) (taken : Step s event s') :
    Scan (event :: trace) s' c key durability i := by
  obtain ⟨store, silent, bucket⟩ := step_beside_reader locks c holds differ taken
  have locked : lockedAt c (event :: trace) = lockedAt c trace :=
    before_miss _ _ _ (marks_of_other c event differ).1
  have bound : i ≤ s'.store.flushID := store ▸ scan.bound
  -- Either the blobs still to be read are as they were, or the one under the
  -- counter has just landed and the scan is about to read it.
  have cases : (scanBlobs s'.bucket.ReadAll key i = scanBlobs s.bucket.ReadAll key i) ∨
      i = s'.store.flushID := by
    rcases bucket with same | ⟨writer, flushID, bufMap, rfl, writing, landed⟩
    · exact Or.inl (by rw [same])
    · obtain ⟨counter, -⟩ := layers.writing writer flushID bufMap writing
      rcases Nat.lt_or_eq_of_le bound with below | top
      · apply Or.inl
        rw [landed]
        apply scanBlobs_congr
        intro j small
        apply readAll_writeAll_other
        rw [store] at below
        omega
      · exact Or.inr top
  constructor
  · exact bound
  · intro memory
    obtain ⟨missed, answers⟩ := scan.memory memory
    rw [store]
    refine ⟨missed, ?_⟩
    rcases cases with same | top
    · rw [same, answers, writes_quiet event trace silent]
    · rw [top, layers'.segments key, (memory_missed layers' key (store ▸ missed)).2]
  · rw [locked]
    obtain ⟨q, inside, answers⟩ := scan.remote
    rcases cases with same | top
    · exact ⟨q, inside.later event, by rw [same, answers]⟩
    · refine ⟨event :: trace, ?_, ?_⟩
      · exact between_now ((before_suffix _ trace).trans (List.suffix_cons event trace))
      · rw [top, layers'.segments key]

/-- The reader's own steps: a scan that begins still has every segment to read, and
one that passes a segment goes on below it. -/
theorem scan_own {trace : Trace Client} {s s' : State Client} {event : Event Client}
    (layers : Layers trace s) (layers' : Layers (event :: trace) s') (reads : Reads trace s)
    (taken : Step s event s') {key : Bytes} {durability : DurabilityLevel} {i : Nat}
    (at' : s'.thread (actor event) = .getScanning key durability i) :
    Scan (event :: trace) s' (actor event) key durability i := by
  cases taken with
  | getMissed c locked missed =>
      simp only [actor, move_thread_self, Thread.getScanning.injEq] at at'
      obtain ⟨rfl, rfl, rfl⟩ := at'
      constructor
      · exact Nat.le_refl _
      · intro memory
        refine ⟨missed memory, (layers.segments _).trans ?_⟩
        rw [(memory_missed layers _ (missed memory)).2, writes_quiet _ trace rfl]
      · exact ⟨_, between_now (before_suffix _ _), layers'.segments _⟩
  | @blobPassed c key durability i scanning passed =>
      simp only [actor, move_thread_self, Thread.getScanning.injEq] at at'
      obtain ⟨rfl, rfl, rfl⟩ := at'
      have scan := reads.scanning c _ _ _ scanning
      have onward : scanBlobs s.bucket.ReadAll key (i + 1) =
          scanBlobs s.bucket.ReadAll key i := by simp [scanBlobs, passed]
      constructor
      · exact Nat.le_of_succ_le scan.bound
      · intro memory
        rw [writes_quiet _ trace rfl]
        exact onward ▸ scan.memory memory
      · obtain ⟨q, inside, answers⟩ := scan.remote
        exact ⟨q, inside.later _, onward ▸ answers⟩
  | put c key value idle free => simp_all [actor]
  | delete c key idle free => simp_all [actor]
  | getCalled c key opts idle => simp_all [actor]
  | _ => simp_all [actor, State.move, State.unlockMu, State.unlockFlush]

theorem reads_step {trace : Trace Client} {s s' : State Client} {event : Event Client}
    (layers : Layers trace s) (layers' : Layers (event :: trace) s') (locks : Locks s)
    (reads : Reads trace s) (taken : Step s event s') : Reads (event :: trace) s' := by
  constructor
  · intro c holds
    by_cases acts : c = actor event
    · subst acts
      rcases own_step_reader taken holds with ⟨c, rfl⟩ | ⟨held, silent, locked, called⟩
      · have locked : lockedAt c (.getLocked c :: trace) = trace :=
          before_hit _ _ _ (by simp [isGetLockedBy])
        simp only [actor]
        rw [locked, writes_quiet _ trace rfl]
      · rw [lockedAt, before_miss _ _ _ locked, writes_quiet event trace silent]
        exact reads.unwritten _ held
    · rw [step_thread_other taken c acts] at holds
      obtain ⟨-, silent, -⟩ := step_beside_reader locks c holds acts taken
      rw [lockedAt, before_miss _ _ _ (marks_of_other c event acts).1,
        writes_quiet event trace silent]
      exact reads.unwritten c holds
  · intro c holds
    by_cases acts : c = actor event
    · subst acts
      rcases own_step_reader taken holds with ⟨c, rfl⟩ | ⟨held, silent, locked, called⟩
      · have locked : lockedAt c (.getLocked c :: trace) = trace :=
          before_hit _ _ _ (by simp [isGetLockedBy])
        have called : calledAt c (.getLocked c :: trace) = calledAt c trace :=
          before_miss _ _ _ rfl
        simp only [actor]
        rw [locked, called]
        exact before_suffix _ trace
      · rw [calledAt, lockedAt, before_miss _ _ _ locked, before_miss _ _ _ called]
        exact reads.called _ held
    · rw [step_thread_other taken c acts] at holds
      rw [calledAt, lockedAt, before_miss _ _ _ (marks_of_other c event acts).1,
        before_miss _ _ _ (marks_of_other c event acts).2]
      exact reads.called c holds
  · intro c key durability i at'
    by_cases acts : c = actor event
    · subst acts
      exact scan_own layers layers' reads taken at'
    · rw [step_thread_other taken c acts] at at'
      have holds : (s.thread c).holdsMu = true := by rw [at']; rfl
      exact scan_beside layers layers' locks (reads.scanning c _ _ _ at') holds acts taken

theorem reads_run {trace : Trace Client} {s : State Client}
    (run : Run system losslessFreeze trace s) (keys : Utf8Keys trace) : Reads trace s := by
  revert keys
  apply run.invariant (fun trace s => Utf8Keys trace → Reads trace s)
  · intro s start keys
    subst start
    constructor
    · intro c holds
      cases holds
    · intro c holds
      cases holds
    · intro c key durability i at'
      cases at'
  · intro trace s event s' before ih lossless taken keys
    have earlier : Utf8Keys trace := keys.past (List.suffix_cons event trace)
    exact reads_step (layers_run before earlier)
      (layers_run (.step before taken lossless) keys) (locks_run before) (ih earlier) taken

end FizzbeeMbt.GoStore
