import FizzbeeMbt.Lib.Runs

/-! Refinement between two transition systems by forward simulation. -/

namespace FizzbeeMbt.Runs

variable {σ ε τ η : Type*}

/-- Every admitted step of `low` is matched by the steps of `high` it shows,
newest first; a step that shows none leaves the state of `high` as it is. -/
structure Simulation (low : System σ ε) (admits : List ε → σ → ε → Prop) (high : System τ η)
    (shown : ε → List η) (related : List ε → σ → τ → Prop) : Prop where
  starts : ∀ s, low.start s → ∃ t, high.start t ∧ related [] s t
  steps : ∀ trace s event s' t, Run low admits trace s →
    Run high anyStep (trace.flatMap shown) t → related trace s t → admits trace s event →
    low.step s event s' →
    ∃ t', Run (high.resumed t) anyStep (shown event) t' ∧ related (event :: trace) s' t'

theorem Simulation.run {low : System σ ε} {admits : List ε → σ → ε → Prop} {high : System τ η}
    {shown : ε → List η} {related : List ε → σ → τ → Prop}
    (simulates : Simulation low admits high shown related) {trace : List ε} {s : σ}
    (run : Run low admits trace s) :
    ∃ t, Run high anyStep (trace.flatMap shown) t ∧ related trace s t := by
  induction run with
  | start initial =>
      obtain ⟨t, starts, match'⟩ := simulates.starts _ initial
      exact ⟨t, .start starts, match'⟩
  | step before taken admitted ih =>
      obtain ⟨t, upto, match'⟩ := ih
      obtain ⟨t', onward, match''⟩ := simulates.steps _ _ _ _ t before upto match' admitted taken
      exact ⟨t', upto.resume onward, match''⟩

/-- The run of no steps from a state. -/
theorem stay (sys : System σ ε) (s : σ) : Run (sys.resumed s) anyStep [] s := .start rfl

theorem one (sys : System σ ε) {s s' : σ} {event : ε} (taken : sys.step s event s') :
    Run (sys.resumed s) anyStep [event] s' := (stay sys s).step taken trivial

/-- A run whose events all pass a test is a run that admits only such events. -/
theorem Run.restrict {sys : System σ ε} {admits : List ε → σ → ε → Prop} {keep : ε → Prop}
    {trace : List ε} {s : σ} (run : Run sys admits trace s) (all : ∀ event ∈ trace, keep event) :
    Run sys (fun trace s event => admits trace s event ∧ keep event) trace s := by
  induction run with
  | start initial => exact .start initial
  | step before taken admitted ih =>
      obtain ⟨kept, earlier⟩ := List.forall_mem_cons.mp all
      exact (ih earlier).step taken ⟨admitted, kept⟩

end FizzbeeMbt.Runs
