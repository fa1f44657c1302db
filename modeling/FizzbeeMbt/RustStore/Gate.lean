import FizzbeeMbt.RustStore.Machine

/-! Mutual exclusion at `flush_gate`, and what a step leaves alone. -/

namespace FizzbeeMbt.RustStore

open FizzbeeMbt.Maps FizzbeeMbt.Deltas FizzbeeMbt.Runs

variable {Client Path : Type} [DecidableEq Client] [LinearOrder Path]

/-- The client that takes a step. -/
def actor : Event Client Path → Client
  | .put c _ _ => c
  | .delete c _ => c
  | .getCalled c _ _ => c
  | .bufMissed c => c
  | .immutableMissed c => c
  | .listed c => c
  | .segmentPassed c => c
  | .getReturned c _ _ _ => c
  | .flushCalled c => c
  | .gateTaken c => c
  | .frozen c => c
  | .freezeSkipped c => c
  | .freezeRefused c => c
  | .tookNothing c => c
  | .taken c => c
  | .landed c _ => c
  | .putFailed c => c
  | .putDropped c => c
  | .dropped c => c
  | .flushReturned c => c

omit [LinearOrder Path] in
@[simp] theorem move_thread_self (s : State Client Path) (c : Client) (thread : Thread Path) :
    (s.move c thread).thread c = thread := by
  simp [State.move]

theorem step_thread_other {s s' : State Client Path} {event : Event Client Path}
    (taken : Step s event s') (other : Client) (differ : other ≠ actor event) :
    s'.thread other = s.thread other := by
  cases taken <;> simp_all [actor, State.move, State.openGate]

/-- The gate is held exactly by the client that is past it. -/
def Gate (s : State Client Path) : Prop :=
  ∀ c, s.flush_gate = some c ↔ (s.thread c).holdsGate = true

omit [DecidableEq Client] [LinearOrder Path] in
theorem Gate.sole {s : State Client Path} (gate : Gate s) (c other : Client)
    (first : (s.thread c).holdsGate = true) (second : (s.thread other).holdsGate = true) :
    other = c := by
  have held := (gate c).mpr first
  rw [(gate other).mpr second] at held
  exact Option.some.inj held

/-- What a step does to the gate: nothing, or its client takes it or gives it back. -/
theorem step_gate {s s' : State Client Path} {event : Event Client Path}
    (taken : Step s event s') :
    (s'.flush_gate = s.flush_gate ∧
        (s'.thread (actor event)).holdsGate = (s.thread (actor event)).holdsGate) ∨
      (s.flush_gate = none ∧ s'.flush_gate = some (actor event) ∧
        (s'.thread (actor event)).holdsGate = true) ∨
      ((s.thread (actor event)).holdsGate = true ∧ s'.flush_gate = none ∧
        (s'.thread (actor event)).holdsGate = false) := by
  cases taken with
  | getCalled c key level idle =>
      cases level <;> simp_all [actor, State.move, Thread.holdsGate, getStart]
  | dropped c awaiting =>
      rcases awaiting with at' | at' | at' <;>
        simp_all [actor, State.move, State.openGate, Thread.holdsGate]
  | _ => simp_all [actor, State.move, State.openGate, Thread.holdsGate]

theorem gate_step {s s' : State Client Path} {event : Event Client Path} (gate : Gate s)
    (taken : Step s event s') : Gate s' := by
  intro c
  have effect := step_gate taken
  by_cases acts : c = actor event
  · subst acts
    rcases effect with ⟨same, still⟩ | ⟨-, took, holds⟩ | ⟨-, opened, gone⟩
    · rw [same, still]
      exact gate _
    · simp [took, holds]
    · simp [opened, gone]
  · rw [step_thread_other taken c acts]
    rcases effect with ⟨same, -⟩ | ⟨free, took, -⟩ | ⟨held, opened, -⟩
    · rw [same]
      exact gate c
    · rw [← gate c, free, took]
      simp [Ne.symm acts]
    · rw [← gate c, opened, (gate _).mpr held]
      simp [Ne.symm acts]

theorem gate_run {admits : Trace Client Path → State Client Path → Event Client Path → Prop}
    {trace : Trace Client Path} {s : State Client Path} (run : Run system admits trace s) :
    Gate s := by
  apply run.invariant (fun _ s => Gate s)
  · intro s start c
    subst start
    simp [initial, Thread.holdsGate]
  · intro _ _ _ _ _ gate _ taken
    exact gate_step gate taken

/-- The map of the running flush that is neither in `immutable_buf` nor yet an
object. -/
def State.inFlight (s : State Client Path) : Map Key Value :=
  match s.flush_gate with
  | some c => (s.thread c).carried
  | none => ∅

omit [DecidableEq Client] [LinearOrder Path] in
theorem Gate.inFlight {s : State Client Path} (gate : Gate s) (c : Client)
    (holds : (s.thread c).holdsGate = true) : s.inFlight = (s.thread c).carried := by
  rw [State.inFlight, (gate c).mpr holds]

omit [DecidableEq Client] [LinearOrder Path] in
theorem carried_idle {thread : Thread Path} (free : thread.holdsGate = false) :
    thread.carried = ∅ := by
  cases thread <;> first | rfl | cases free

/-- The steps that move entries between the layers. -/
def carries : Event Client Path → Bool
  | .taken _ => true
  | .landed _ _ => true
  | .putFailed _ => true
  | .putDropped _ => true
  | _ => false

theorem carried_step {s s' : State Client Path} {event : Event Client Path}
    (taken : Step s event s') (still : carries event = false) (c : Client) :
    (s'.thread c).carried = (s.thread c).carried := by
  by_cases acts : c = actor event
  · subst acts
    cases taken with
    | getCalled c key level idle =>
        cases level <;> simp_all [actor, State.move, Thread.carried, getStart]
    | dropped c awaiting =>
        rcases awaiting with at' | at' | at' <;>
          simp_all [actor, State.move, State.openGate, Thread.carried]
    | _ => simp_all [actor, carries, State.move, State.openGate, Thread.carried]
  · rw [step_thread_other taken c acts]

omit [LinearOrder Path] in
/-- What is in flight can be read off any client that holds the gate, and off all
clients when none does. -/
theorem inFlight_congr {s s' : State Client Path} (gate : Gate s) (gate' : Gate s')
    (same : ∀ c, (s'.thread c).carried = (s.thread c).carried) : s'.inFlight = s.inFlight := by
  have none_held {t : State Client Path} (gateT : Gate t) (free : t.flush_gate = none)
      (c : Client) : (t.thread c).carried = ∅ := by
    apply carried_idle
    by_contra holds
    have held := (gateT c).mpr (by simpa using holds)
    rw [free] at held
    cases held
  unfold State.inFlight
  cases held' : s'.flush_gate with
  | none =>
      cases held : s.flush_gate with
      | none => rfl
      | some c => exact ((same c).symm.trans (none_held gate' held' c)).symm
  | some c' =>
      cases held : s.flush_gate with
      | none => exact (same c').trans (none_held gate held c')
      | some c =>
          by_cases one : c' = c
          · subst one
            exact same c'
          · have free : (s.thread c').holdsGate = false := by
              by_contra holds
              exact one (gate.sole c c' ((gate c).mp held) (by simpa using holds))
            have free' : (s'.thread c).holdsGate = false := by
              by_contra holds
              exact one ((gate'.sole c' c ((gate' c').mp held') (by simpa using holds))).symm
            have left : (s'.thread c').carried = ∅ := (same c').trans (carried_idle free)
            have right : (s.thread c).carried = ∅ := (same c).symm.trans (carried_idle free')
            exact left.trans right.symm

theorem inFlight_step {s s' : State Client Path} {event : Event Client Path} (gate : Gate s)
    (taken : Step s event s') (still : carries event = false) : s'.inFlight = s.inFlight :=
  inFlight_congr gate (gate_step gate taken) (carried_step taken still)

end FizzbeeMbt.RustStore
