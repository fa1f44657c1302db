import FizzbeeMbt.GoStore.Reads

/-! Gets with `DurabilityMemory`: what they return while a Flush is anywhere, and
after failed Flushes. -/

namespace FizzbeeMbt.GoStore

open FizzbeeMbt.Maps FizzbeeMbt.Deltas FizzbeeMbt.Runs

variable {Client : Type} [DecidableEq Client]

theorem memory_answer {trace past : Trace Client} {s : State Client}
    (run : Run system losslessFreeze trace s) (keys : Utf8Keys trace) {c : Client}
    {key : Bytes} {answer : Except GetError Bytes}
    (returned : .getReturned c key .DurabilityMemory answer :: past <:+ trace) :
    answer = answerOf (latest (writes (lockedAt c past)) key) := by
  obtain ⟨s₁, s₂, before, -, taken⟩ := run.emitted returned
  have earlier : Utf8Keys past := keys.past ((List.suffix_cons _ _).trans returned)
  have layers := layers_run before earlier
  have reads := reads_run before earlier
  cases taken with
  | getFound c locked found =>
      rw [reads.unwritten c (by rw [locked]; rfl)]
      exact memory_found layers key answer found
  | blobAnswered c scanning answered =>
      rw [reads.unwritten c (by rw [scanning]; rfl),
        ← ((reads.scanning c _ _ _ scanning).memory rfl).2]
      simp [scanBlobs, answered]
  | scanEnded c scanning =>
      rw [reads.unwritten c (by rw [scanning]; rfl),
        ← ((reads.scanning c _ _ _ scanning).memory rfl).2]
      rfl

/-- Without failing writes nothing is frozen any more when a Flush freezes. -/
theorem frozen_has_flusher {trace : Trace Client} {s : State Client}
    (run : Run system faultFree trace s) :
    s.store.immutableBuf = none ∨ ∃ c, (s.thread c).holdsFlushMutex = true ∧
      s.thread c ≠ .flushLocked := by
  apply run.invariant (fun _ s => s.store.immutableBuf = none ∨
    ∃ c, (s.thread c).holdsFlushMutex = true ∧ s.thread c ≠ .flushLocked)
  · intro s start
    subst start
    exact Or.inl rfl
  · intro trace s event s' before ih admitted taken
    by_cases freezes : isFrozen event = true
    · apply Or.inr
      refine ⟨actor event, ?_⟩
      cases taken <;> simp_all [isFrozen, actor, State.move, Thread.holdsFlushMutex]
    · rcases ih with thawed | ⟨c, holds, moved⟩
      · apply Or.inl
        cases taken <;>
          simp_all [isFrozen, State.move, State.unlockMu, State.unlockFlush,
            KVStore.Put, KVStore.Delete, KVStore.clearImmutable]
      · by_cases acts : c = actor event
        · subst acts
          cases taken with
          | blobWritten c writing => exact Or.inr ⟨c, by simp [State.move, Thread.holdsFlushMutex]⟩
          | flushReturned c clearing free => exact Or.inl rfl
          | _ => simp_all [isFrozen, actor, faultFree, isWriteFailed, Thread.holdsFlushMutex]
        · apply Or.inr
          refine ⟨c, ?_⟩
          rw [step_thread_other taken c acts]
          exact ⟨holds, moved⟩

theorem thawed_at_lock {trace : Trace Client} {s : State Client}
    (run : Run system faultFree trace s) {c : Client} (locked : s.thread c = .flushLocked) :
    s.store.immutableBuf = none := by
  rcases frozen_has_flusher run with thawed | ⟨other, holds, moved⟩
  · exact thawed
  · have same := (locks_run run).flusher c other (by rw [locked]; rfl) holds
    subst same
    exact absurd locked moved

theorem lossless_of_faultFree {trace : Trace Client} {s : State Client}
    (run : Run system faultFree trace s) : Run system losslessFreeze trace s := by
  apply run.refine
  intro trace s event s' before _ taken
  cases taken with
  | frozen c locked free filled =>
      intro _ immutableBuf frozen
      rw [thawed_at_lock before locked] at frozen
      cases frozen
  | _ => intro freezes; cases freezes

/-- Dirty reads are linearizable: in every interleaving without failing writes, a
Memory Get answers for the last write whose step came before the Get took `mu`. -/
theorem memory_get_linearizable {trace past : Trace Client} {s : State Client}
    (run : Run system faultFree trace s) (keys : Utf8Keys trace) (c : Client)
    (key : Bytes) (answer : Except GetError Bytes)
    (returned : .getReturned c key .DurabilityMemory answer :: past <:+ trace) :
    answer = answerOf (latest (writes (lockedAt c past)) key) :=
  memory_answer (lossless_of_faultFree run) keys returned

/-- A Put, a Flush halted between freeze and write, a second Put and a Get of the
frozen key. -/
def midFlushTrace : Trace Bool :=
  [.getReturned false [107] .DurabilityMemory (.ok [1]), .getLocked false,
    .getCalled false [107] .DurabilityMemory, .put false [108] [2], .frozen true,
    .flushLocked true, .flushCalled true, .put false [107] [1]]

theorem midFlush_run : ∃ s, Run system faultFree midFlushTrace s := by
  have start : Run system faultFree [] (initial : State Bool) := .start rfl
  have run := (((((((start.step (.put false [107] [1] rfl rfl) rfl).step
    (.flushCalled true rfl) rfl).step
    (.flushLocked true rfl rfl) rfl).step
    (.frozen true rfl rfl rfl) rfl).step
    (.put false [108] [2] rfl rfl) rfl).step
    (.getCalled false [107] (some ⟨.DurabilityMemory⟩) rfl) rfl).step
    (.getLocked false rfl rfl) rfl).step
    (.getFound false rfl rfl) rfl
  exact ⟨_, run⟩

theorem memory_get_linearizable_midFlush :
    ∃ past, midFlushTrace = .getReturned false [107] .DurabilityMemory (.ok [1]) :: past ∧
      (.ok [1] : Except GetError Bytes) =
        answerOf (latest (writes (lockedAt false past)) [107]) := by
  obtain ⟨s, run⟩ := midFlush_run
  exact ⟨_, rfl, memory_get_linearizable run (by decide) false [107] (.ok [1])
    (List.suffix_refl _)⟩

/-- Failed Flushes lose nothing as long as every freeze is lossless: whatever an
earlier failed Flush left in `immutableBuf` has been written again by then. -/
theorem memory_get_after_failures {trace past : Trace Client} {s : State Client}
    (run : Run system losslessFreeze trace s) (keys : Utf8Keys trace) (c : Client)
    (key : Bytes) (answer : Except GetError Bytes)
    (returned : .getReturned c key .DurabilityMemory answer :: past <:+ trace) :
    answer = answerOf (latest (writes (lockedAt c past)) key) :=
  memory_answer run keys returned

/-- A freeze that is not lossless forgets the frozen writes it drops: their keys
read as they did at the landed segments. -/
theorem lossy_freeze_forgets {trace : Trace Client} {s : State Client}
    (layers : Layers trace s) (k : Bytes) (missed : s.store.live k = none) :
    s.store.freeze.2.Get s.bucket.ReadAll k (some ⟨.DurabilityMemory⟩) =
      answerOf (latest (writes (landedAt trace)) k) := by
  have memory : s.store.freeze.2.getMemory k = none := by
    rw [getMemory_frozen s.store.freeze.2 s.store.freeze.1 s.store.live k rfl
      (freeze_encodes s.store), missed]
    rfl
  have absent := layers.unwritten (s.store.flushID + 1) (Nat.lt_succ_self _)
  calc
    s.store.freeze.2.Get s.bucket.ReadAll k (some ⟨.DurabilityMemory⟩) =
        scanBlobs s.bucket.ReadAll k (s.store.flushID + 1) := by
      simp only [KVStore.Get, durabilityOf, memory]
      rfl
    _ = scanBlobs s.bucket.ReadAll k s.store.flushID := scanBlobs_absent _ k _ absent
    _ = answerOf (latest (writes (landedAt trace)) k) := layers.segments k

/-- A failed Flush whose key is written again before the next Flush freezes. -/
def rewrittenTrace : Trace Unit :=
  [.getReturned () [107] .DurabilityMemory (.ok [2]), .getMissed (), .getLocked (),
    .getCalled () [107] .DurabilityMemory, .flushReturned (), .blobWritten () 2, .frozen (),
    .flushLocked (), .flushCalled (), .put () [107] [2], .writeFailed () 1, .frozen (),
    .flushLocked (), .flushCalled (), .put () [107] [1]]

theorem memory_get_after_failures_rewritten :
    (∃ s, Run system losslessFreeze rewrittenTrace s) ∧
      ∃ past, rewrittenTrace = .getReturned () [107] .DurabilityMemory (.ok [2]) :: past ∧
        (.ok [2] : Except GetError Bytes) =
          answerOf (latest (writes (lockedAt () past)) [107]) := by
  have start : Run system losslessFreeze [] (initial : State Unit) := .start rfl
  have failed := ((((start.step (.put () [107] [1] rfl rfl) (by decide)).step
    (.flushCalled () rfl) (by decide)).step
    (.flushLocked () rfl rfl) (by decide)).step
    (.frozen () rfl rfl rfl) (by decide)).step
    (.writeFailed () rfl) (by decide)
  have flushed := (((((failed.step (.put () [107] [2] rfl rfl) (by decide)).step
    (.flushCalled () rfl) (by decide)).step
    (.flushLocked () rfl rfl) (by decide)).step
    (.frozen () rfl rfl rfl) (by decide)).step
    (.blobWritten () rfl) (by decide)).step
    (.flushReturned () rfl rfl) (by decide)
  have run : ∃ s, Run system losslessFreeze rewrittenTrace s := ⟨_, (((flushed.step
    (.getCalled () [107] (some ⟨.DurabilityMemory⟩) rfl) (by decide)).step
    (.getLocked () rfl rfl) (by decide)).step
    (.getMissed () rfl (fun _ => rfl)) (by decide)).step
    (.blobAnswered () rfl rfl) (by decide)⟩
  refine ⟨run, _, rfl, ?_⟩
  obtain ⟨s, run⟩ := run
  exact memory_get_after_failures run (by decide) () [107] (.ok [2]) (List.suffix_refl _)

/-- Put, failed Flush, Put of another key, Flush, and a Get of the first key. -/
def lossTrace : Trace Unit :=
  [.getReturned () [107] .DurabilityMemory (.error .KEY_NOT_FOUND), .blobPassed (),
    .blobPassed (), .getMissed (), .getLocked (), .getCalled () [107] .DurabilityMemory,
    .flushReturned (), .blobWritten () 2, .frozen (), .flushLocked (), .flushCalled (),
    .put () [108] [2], .writeFailed () 1, .frozen (), .flushLocked (), .flushCalled (),
    .put () [107] [1]]

/-- The frozen entry of a failed Flush is dropped by the next freeze: its Put is
lost although no later write touched the key. -/
theorem failed_flush_loses_put :
    (∃ s, Run system anyStep lossTrace s) ∧ Utf8Keys lossTrace ∧
      ∃ past, lossTrace =
          .getReturned () [107] .DurabilityMemory (.error .KEY_NOT_FOUND) :: past ∧
        (.error .KEY_NOT_FOUND : Except GetError Bytes) ≠
          answerOf (latest (writes (lockedAt () past)) [107]) := by
  have start : Run system anyStep [] (initial : State Unit) := .start rfl
  have failed := ((((start.step (.put () [107] [1] rfl rfl) trivial).step
    (.flushCalled () rfl) trivial).step
    (.flushLocked () rfl rfl) trivial).step
    (.frozen () rfl rfl rfl) trivial).step
    (.writeFailed () rfl) trivial
  have flushed := (((((failed.step (.put () [108] [2] rfl rfl) trivial).step
    (.flushCalled () rfl) trivial).step
    (.flushLocked () rfl rfl) trivial).step
    (.frozen () rfl rfl rfl) trivial).step
    (.blobWritten () rfl) trivial).step
    (.flushReturned () rfl rfl) trivial
  refine ⟨⟨_, (((((flushed.step
    (.getCalled () [107] (some ⟨.DurabilityMemory⟩) rfl) trivial).step
    (.getLocked () rfl rfl) trivial).step
    (.getMissed () rfl (fun _ => rfl)) trivial).step
    (.blobPassed () rfl rfl) trivial).step
    (.blobPassed () rfl rfl) trivial).step
    (.scanEnded () rfl) trivial⟩, ?_⟩
  exact ⟨by decide, _, rfl, by decide⟩

end FizzbeeMbt.GoStore
