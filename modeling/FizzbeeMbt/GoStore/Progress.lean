import FizzbeeMbt.GoStore.DirtyReads
import FizzbeeMbt.Lib.Progress

/-! The Go store cannot deadlock: whatever calls are in progress, all of them return
after boundedly many steps, and leave both mutexes unlocked. -/

namespace FizzbeeMbt.GoStore

open FizzbeeMbt.Maps FizzbeeMbt.Runs

variable {Client : Type}

def isCall : Event Client → Prop
  | .put _ _ _ => True
  | .delete _ _ => True
  | .getCalled _ _ _ => True
  | .flushCalled _ => True
  | _ => False

/-- The steps of the store itself: no call begins, and no write of a blob fails. -/
def isOwn (event : Event Client) : Prop := ¬ isCall event ∧ isWriteFailed event = false

section Work

/-- Whether the thread may still raise `flushID`. -/
def Thread.freezes : Thread → Nat
  | .flushCalled => 1
  | .flushLocked => 1
  | _ => 0

/-- A bound on the steps a thread has still to take while `flushID` is at most `top`. -/
def Thread.work (top : Nat) : Thread → Nat
  | .idle => 0
  | .getCalled _ _ => top + 3
  | .getLocked _ _ => top + 2
  | .getScanning _ _ i => i + 1
  | .flushCalled => 4
  | .flushLocked => 3
  | .flushWriting _ _ => 2
  | .flushClearing => 1

theorem work_mono {low high : Nat} (bound : low ≤ high) (thread : Thread) :
    thread.work low ≤ thread.work high := by
  cases thread <;> simp only [Thread.work, le_refl] <;> omega

end Work

variable [DecidableEq Client]

section Locks

/-- Each mutex is held exactly by the client that has locked it and not yet unlocked. -/
structure Held (s : State Client) : Prop where
  mu : ∀ c, s.mu = some c ↔ (s.thread c).holdsMu = true
  flushMutex : ∀ c, s.flushMutex = some c ↔ (s.thread c).holdsFlushMutex = true

/-- What a step does to one mutex: nothing, or its client locks or unlocks it. -/
def LockStep (holds : Thread → Bool) (before after : Option Client) (c : Client)
    (thread thread' : Thread) : Prop :=
  (after = before ∧ holds thread' = holds thread) ∨
    (before = none ∧ after = some c ∧ holds thread' = true) ∨
      (holds thread = true ∧ after = none ∧ holds thread' = false)

theorem step_mu {s s' : State Client} {event : Event Client} (taken : Step s event s') :
    LockStep Thread.holdsMu s.mu s'.mu (actor event) (s.thread (actor event))
      (s'.thread (actor event)) := by
  cases taken <;>
    simp_all [LockStep, actor, State.move, State.unlockMu, State.unlockFlush, Thread.holdsMu]

theorem step_flushMutex {s s' : State Client} {event : Event Client} (taken : Step s event s') :
    LockStep Thread.holdsFlushMutex s.flushMutex s'.flushMutex (actor event)
      (s.thread (actor event)) (s'.thread (actor event)) := by
  cases taken <;>
    simp_all [LockStep, actor, State.move, State.unlockMu, State.unlockFlush,
      Thread.holdsFlushMutex]

theorem LockStep.held {holds : Thread → Bool} {before after : Option Client}
    {threads threads' : Client → Thread} {a : Client}
    (effect : LockStep holds before after a (threads a) (threads' a))
    (held : ∀ c, before = some c ↔ holds (threads c) = true)
    (others : ∀ c, c ≠ a → threads' c = threads c) (c : Client) :
    after = some c ↔ holds (threads' c) = true := by
  by_cases acts : c = a
  · subst acts
    rcases effect with ⟨same, still⟩ | ⟨-, locked, holds⟩ | ⟨-, unlocked, free⟩
    · rw [same, still]
      exact held c
    · simp [locked, holds]
    · simp [unlocked, free]
  · rw [others c acts]
    rcases effect with ⟨same, -⟩ | ⟨free, locked, -⟩ | ⟨holds, unlocked, -⟩
    · rw [same]
      exact held c
    · rw [← held c, free, locked]
      simp [Ne.symm acts]
    · rw [← held c, unlocked, (held a).mpr holds]
      simp [Ne.symm acts]

theorem held_step {s s' : State Client} {event : Event Client} (held : Held s)
    (taken : Step s event s') : Held s' :=
  ⟨(step_mu taken).held held.mu (step_thread_other taken),
    (step_flushMutex taken).held held.flushMutex (step_thread_other taken)⟩

end Locks

section Enabled

variable {s : State Client}

theorem flush_enabled (free : s.mu = none) (c : Client)
    (holds : (s.thread c).holdsFlushMutex = true) :
    system.Enabled isOwn s := by
  cases at' : s.thread c with
  | flushLocked =>
      cases empty : s.store.buffer.isEmpty with
      | true => exact ⟨.flushSkipped c, _, ⟨id, rfl⟩, .flushSkipped c at' free empty⟩
      | false => exact ⟨.frozen c, _, ⟨id, rfl⟩, .frozen c at' free empty⟩
  | flushWriting flushID bufMap => exact ⟨.blobWritten c flushID, _, ⟨id, rfl⟩, .blobWritten c at'⟩
  | flushClearing => exact ⟨.flushReturned c, _, ⟨id, rfl⟩, .flushReturned c at' free⟩
  | _ => simp [at', Thread.holdsFlushMutex] at holds

end Enabled

section Termination

theorem held_run {admits : Trace Client → State Client → Event Client → Prop}
    {trace : Trace Client} {s : State Client} (run : Run system admits trace s) : Held s := by
  apply run.invariant (fun _ s => Held s)
  · rintro s rfl
    exact ⟨by simp [initial, Thread.holdsMu], by simp [initial, Thread.holdsFlushMutex]⟩
  · intro _ _ _ _ _ held _ taken
    exact held_step held taken

/-- The calls in progress as a pool; a scan reads one blob for each flush there was. -/
def calls : Pool (system : System (State Client) (Event Client)) (fun event => ¬ isCall event)
    Client Thread where
  thread s := s.thread
  actor := actor
  idle := .idle
  size s := s.store.flushID
  gains := Thread.freezes
  work := Thread.work
  rest _ := rfl
  mono _ _ thread bound := work_mono bound thread
  others _ _ _ taken := step_thread_other taken
  exchange := by
    intro s event s' taken inner
    cases taken <;>
      simp_all [isCall, actor, State.move, State.unlockMu, State.unlockFlush, Thread.freezes,
        KVStore.freeze, KVStore.clearImmutable]
  works := by
    intro s event s' taken inner top bound
    cases taken with
    | getMissed c locked missed =>
        simp only [actor, move_thread_self, Thread.work, locked]
        omega
    | _ => simp_all [isCall, actor, State.move, State.unlockMu, State.unlockFlush, Thread.work]

end Termination

end FizzbeeMbt.GoStore
