import FizzbeeMbt.GoStore.Machine

/-! Mutual exclusion in the Go store, and what a step leaves alone. -/

namespace FizzbeeMbt.GoStore

open FizzbeeMbt.Maps FizzbeeMbt.Deltas FizzbeeMbt.Runs

variable {Client : Type} [DecidableEq Client]

@[simp] theorem move_thread_self (s : State Client) (c : Client) (thread : Thread) :
    (s.move c thread).thread c = thread := by
  simp [State.move]

theorem move_thread_other (s : State Client) (c other : Client) (thread : Thread)
    (differ : other ≠ c) : (s.move c thread).thread other = s.thread other := by
  simp [State.move, differ]

/-- The client that takes a step. -/
def actor : Event Client → Client
  | .put c _ _ => c
  | .delete c _ => c
  | .getCalled c _ _ => c
  | .getLocked c => c
  | .getMissed c => c
  | .blobPassed c => c
  | .getReturned c _ _ _ => c
  | .flushCalled c => c
  | .flushLocked c => c
  | .flushSkipped c => c
  | .frozen c => c
  | .blobWritten c _ => c
  | .writeFailed c _ => c
  | .flushReturned c => c

theorem step_thread_other {s s' : State Client} {event : Event Client}
    (taken : Step s event s') (other : Client) (differ : other ≠ actor event) :
    s'.thread other = s.thread other := by
  cases taken <;>
    simp_all [actor, State.move, State.unlockMu, State.unlockFlush]

structure Locks (s : State Client) : Prop where
  mu : ∀ c, (s.thread c).holdsMu = true → s.mu = some c
  flushMutex : ∀ c, (s.thread c).holdsFlushMutex = true → s.flushMutex = some c

omit [DecidableEq Client] in
theorem Locks.flusher {s : State Client} (locks : Locks s) (c other : Client)
    (first : (s.thread c).holdsFlushMutex = true)
    (second : (s.thread other).holdsFlushMutex = true) : other = c := by
  have held := locks.flushMutex c first
  rw [locks.flushMutex other second] at held
  exact Option.some.inj held

/-- While `c` flushes, the thread of any other client is outside of Flush's lock. -/
theorem Locks.sole_flusher {s : State Client} (locks : Locks s) (c other : Client)
    (holds : (s.thread c).holdsFlushMutex = true) (moved thread : Thread)
    (differ : other ≠ c) (at' : (s.move c moved).thread other = thread) :
    thread.holdsFlushMutex = false := by
  rw [move_thread_other s c other moved differ] at at'
  subst at'
  by_contra second
  exact differ (locks.flusher c other holds (by simpa using second))

omit [DecidableEq Client] in
theorem Locks.reader {s : State Client} (locks : Locks s) (c other : Client)
    (first : (s.thread c).holdsMu = true)
    (second : (s.thread other).holdsMu = true) : other = c := by
  have held := locks.mu c first
  rw [locks.mu other second] at held
  exact Option.some.inj held

theorem locks_step {s s' : State Client} {event : Event Client} (locks : Locks s)
    (taken : Step s event s') : Locks s' := by
  have mu : ∀ c, (s'.thread c).holdsMu = true → s'.mu = some c := by
    intro c holds
    by_cases acts : c = actor event
    · subst acts
      have held := locks.mu (actor event)
      cases taken <;>
        simp_all [actor, State.move, State.unlockMu, State.unlockFlush, Thread.holdsMu]
    · have other := step_thread_other taken c acts
      rw [other] at holds
      have held := locks.mu c holds
      have unique := locks.reader c (actor event) holds
      cases taken <;>
        simp_all [actor, State.move, State.unlockMu, State.unlockFlush, Thread.holdsMu]
  have flushMutex : ∀ c, (s'.thread c).holdsFlushMutex = true → s'.flushMutex = some c := by
    intro c holds
    by_cases acts : c = actor event
    · subst acts
      have held := locks.flushMutex (actor event)
      cases taken <;>
        simp_all [actor, State.move, State.unlockMu, State.unlockFlush, Thread.holdsFlushMutex]
    · have other := step_thread_other taken c acts
      rw [other] at holds
      have held := locks.flushMutex c holds
      have unique := locks.flusher c (actor event) holds
      cases taken <;>
        simp_all [actor, State.move, State.unlockMu, State.unlockFlush, Thread.holdsFlushMutex]
  exact ⟨mu, flushMutex⟩

theorem locks_run {admits : Trace Client → State Client → Event Client → Prop}
    {trace : Trace Client} {s : State Client} (run : Run system admits trace s) : Locks s := by
  apply run.invariant (fun _ s => Locks s)
  · intro s start
    subst start
    exact ⟨by simp [initial, Thread.holdsMu], by simp [initial, Thread.holdsFlushMutex]⟩
  · intro _ _ _ _ _ locks _ taken
    exact locks_step locks taken

end FizzbeeMbt.GoStore
