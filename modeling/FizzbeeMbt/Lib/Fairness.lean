import FizzbeeMbt.Lib.Runs
import Mathlib.Order.Filter.AtTopBot.Basic

/-! Endless executions, weak fairness, and what a fair action brings about. -/

namespace FizzbeeMbt.Runs

open Filter

variable {σ ε : Type*}

/-- An endless execution: `event n` leads from `state n` to `state (n + 1)`. -/
structure Execution (sys : System σ ε) where
  state : ℕ → σ
  event : ℕ → ε
  starts : sys.start (state 0)
  steps : ∀ n, sys.step (state n) (event n) (state (n + 1))

variable {sys : System σ ε}

/-- The events before an instant, newest first. -/
def Execution.trace (exec : Execution sys) : ℕ → List ε
  | 0 => []
  | n + 1 => exec.event n :: exec.trace n

theorem Execution.run (exec : Execution sys) (n : ℕ) :
    Run sys anyStep (exec.trace n) (exec.state n) := by
  induction n with
  | zero => exact .start exec.starts
  | succ n ih => exact ih.step (exec.steps n) trivial

/-- An action that is enabled from some instant on is taken again and again. -/
def Execution.WeaklyFair (exec : Execution sys) (action : ε → Prop) : Prop :=
  (∀ᶠ n in atTop, sys.Enabled action (exec.state n)) → ∃ᶠ n in atTop, action (exec.event n)

section Rules

variable {exec : Execution sys} {action : ε → Prop} {p q : ℕ → Prop} {onset : ℕ}

theorem eventually_of_kept (kept : ∀ n, onset ≤ n → p n → p (n + 1))
    (once : ∃ n, onset ≤ n ∧ p n) : ∀ᶠ n in atTop, p n := by
  obtain ⟨n, since, now⟩ := once
  apply eventually_atTop.mpr
  refine ⟨n, ?_⟩
  intro m later
  induction m, later using Nat.le_induction with
  | base => exact now
  | succ m later ih => exact kept m (since.trans later) ih

/-- The rule of weak fairness: while `p` holds the fair action stays enabled, other
steps keep `p`, and the action's own step turns it into `q`. -/
theorem Execution.WeaklyFair.leads (fair : exec.WeaklyFair action)
    (enabled : ∀ n, onset ≤ n → p n → sys.Enabled action (exec.state n))
    (kept : ∀ n, onset ≤ n → p n → ¬ action (exec.event n) → p (n + 1))
    (achieved : ∀ n, onset ≤ n → p n → action (exec.event n) → q (n + 1))
    (once : ∃ n, onset ≤ n ∧ p n) : ∃ n, onset ≤ n ∧ q n := by
  obtain ⟨n, since, now⟩ := once
  by_contra never
  -- As long as `q` has not come about, no step of the action was taken, so `p` still holds.
  have holds : ∀ m, n ≤ m → p m := by
    intro m later
    induction m, later using Nat.le_induction with
    | base => exact now
    | succ m later ih =>
        have after : onset ≤ m := since.trans later
        by_cases taken : action (exec.event m)
        · exact absurd ⟨m + 1, after.trans (Nat.le_succ m), achieved m after ih taken⟩ never
        · exact kept m after ih taken
  have open' : ∀ᶠ m in atTop, sys.Enabled action (exec.state m) :=
    eventually_atTop.mpr ⟨n, fun m later => enabled m (since.trans later) (holds m later)⟩
  obtain ⟨m, later, taken⟩ := frequently_atTop.mp (fair open') n
  have after : onset ≤ m := since.trans later
  exact never ⟨m + 1, after.trans (Nat.le_succ m), achieved m after (holds m later) taken⟩

end Rules

section Scheduled

/-- The states of the execution that picks each step by its instant and its state. -/
def scheduled (init : σ) (pick : ℕ → σ → ε × σ) : ℕ → σ
  | 0 => init
  | n + 1 => (pick n (scheduled init pick n)).2

def Execution.ofSchedule (init : σ) (pick : ℕ → σ → ε × σ) (initial : sys.start init)
    (legal : ∀ n s, sys.step s (pick n s).1 (pick n s).2) : Execution sys where
  state := scheduled init pick
  event n := (pick n (scheduled init pick n)).1
  starts := initial
  steps n := legal n _

end Scheduled

end FizzbeeMbt.Runs
