import FizzbeeMbt.Lib.Progress
import FizzbeeMbt.RustStore.Gate
import Mathlib.Data.List.Sort

/-! The Rust store cannot deadlock: whatever calls are in progress, and whichever
flushes fail or are dropped, all of them end after boundedly many steps and leave
`flush_gate` open. -/

namespace FizzbeeMbt.RustStore

open FizzbeeMbt.Maps FizzbeeMbt.Runs

variable {Client Path : Type}

def isCall : Event Client Path → Prop
  | .put _ _ _ => True
  | .delete _ _ => True
  | .getCalled _ _ _ => True
  | .flushCalled _ => True
  | _ => False

/-- The steps of the store itself: no call begins, and no future is dropped. -/
def isOwn (event : Event Client Path) : Prop :=
  ¬ isCall event ∧ event ≠ .dropped (actor event) ∧ event ≠ .putDropped (actor event)

section Work

/-- Whether the thread may still add a segment. -/
def Thread.lands : Thread Path → Nat
  | .flushCalled => 1
  | .flushFreezing => 1
  | .flushTaking => 1
  | .flushPutting _ _ => 1
  | _ => 0

/-- A bound on the steps a thread has still to take while there are at most `top`
segments. -/
def Thread.work (top : Nat) : Thread Path → Nat
  | .idle => 0
  | .getBuf _ => top + 4
  | .getImmutable _ => top + 3
  | .getListing _ _ => top + 2
  | .getReading _ _ remaining => remaining.length + 1
  | .flushCalled => 5
  | .flushFreezing => 4
  | .flushTaking => 3
  | .flushPutting _ _ => 2
  | .flushClearing => 1

theorem work_mono {low high : Nat} (bound : low ≤ high) (thread : Thread Path) :
    thread.work low ≤ thread.work high := by
  cases thread <;> simp only [Thread.work, le_refl] <;> omega

end Work

variable [DecidableEq Client] [LinearOrder Path]

section Enabled

variable {s : State Client Path}

/-- `Ulid::new` has a next path to give. -/
theorem exists_ulid [NoMaxOrder Path] [Nonempty Path] (lastUlid : Option Path) :
    ∃ filename, ∀ last ∈ lastUlid, last < filename := by
  cases lastUlid with
  | none => exact ⟨Classical.arbitrary Path, fun last member => by cases member⟩
  | some last =>
      obtain ⟨filename, above⟩ := exists_gt last
      refine ⟨filename, ?_⟩
      rintro _ ⟨⟩
      exact above

theorem flush_enabled [NoMaxOrder Path] [Nonempty Path] (c : Client)
    (holds : (s.thread c).holdsGate = true) : system.Enabled isOwn s := by
  cases at' : s.thread c with
  | flushFreezing =>
      cases did_freeze : s.store.freeze_internal.1 with
      | true => exact ⟨.frozen c, _, by simp [isOwn, isCall], .frozen c at' did_freeze⟩
      | false =>
          cases empty : s.store.buf.isEmpty with
          | true =>
              exact ⟨.freezeSkipped c, _, by simp [isOwn, isCall],
                .freezeSkipped c at' did_freeze empty⟩
          | false =>
              exact ⟨.freezeRefused c, _, by simp [isOwn, isCall],
                .freezeRefused c at' did_freeze empty⟩
  | flushTaking =>
      cases took : s.store.take_immutable with
      | none => exact ⟨.tookNothing c, _, by simp [isOwn, isCall], .tookNothing c at' took⟩
      | some taken =>
          obtain ⟨filename, increasing⟩ := exists_ulid s.lastUlid
          exact ⟨.taken c, _, by simp [isOwn, isCall], .taken c filename at' took increasing⟩
  | flushPutting filename content =>
      exact ⟨.landed c filename, _, by simp [isOwn, isCall], .landed c at'⟩
  | flushClearing => exact ⟨.flushReturned c, _, by simp [isOwn, isCall], .flushReturned c at'⟩
  | _ => simp [at', Thread.holdsGate] at holds

end Enabled

section Termination

omit [DecidableEq Client] in
theorem keys_insert_length (objects : ObjectStore Path) (path : Path)
    (content : Map Key Value) :
    (objects.insert path content).keys.length ≤ objects.keys.length + 1 := by
  rw [AList.keys_insert, List.length_cons]
  exact Nat.succ_le_succ (List.erase_sublist.length_le)

/-- The calls in progress as a pool; a get reads one segment for each flush that landed. -/
def calls : Pool (system : System (State Client Path) (Event Client Path))
    (fun event => ¬ isCall event) Client (Thread Path) where
  thread s := s.thread
  actor := actor
  idle := .idle
  size s := s.objects.keys.length
  gains := Thread.lands
  work := Thread.work
  rest _ := rfl
  mono _ _ thread bound := work_mono bound thread
  others _ _ _ taken := step_thread_other taken
  exchange := by
    intro s event s' taken inner
    cases taken with
    | @landed c filename content putting =>
        have longer := keys_insert_length s.objects filename content
        simpa only [actor, move_thread_self, Thread.lands, putting, Nat.add_zero] using longer
    | dropped c awaiting =>
        rcases awaiting with at' | at' | at' <;>
          simp [actor, State.move, State.openGate, Thread.lands, at']
    | _ => simp_all [isCall, actor, State.move, State.openGate, Thread.lands]
  works := by
    intro s event s' taken inner top bound
    cases taken with
    | listed c listing at_list lists =>
        have length := lists.1.length_eq
        simp only [actor, move_thread_self, Thread.work, at_list, List.length_reverse]
        omega
    | dropped c awaiting =>
        rcases awaiting with at' | at' | at' <;>
          simp [actor, State.move, State.openGate, Thread.work, at']
    | _ => simp_all [isCall, actor, State.move, State.openGate, Thread.work]

end Termination

end FizzbeeMbt.RustStore
