import FizzbeeMbt.Lib.Replay

/-! The specification `counter.fizz`: the role Counter. -/

namespace FizzbeeMbt.Counter

open FizzbeeMbt.Replay

inductive Op where
  | Inc
  | Dec
  | Get
  deriving DecidableEq, Repr

/-- What an action returns, and the value after it. -/
def perform (MAX : Int) : Machine Int Op (Option Int)
  | value, .Inc => (none, min (value + 1) MAX)
  | value, .Dec => (none, max (value - 1) 0)
  | value, .Get => (some value, value)

/-- `value in range(0, MAX + 1)`. -/
def WithinRange (MAX value : Int) : Prop := 0 ≤ value ∧ value < MAX + 1

theorem perform_within {MAX value : Int} (positive : 0 ≤ MAX) (within : WithinRange MAX value)
    (op : Op) : WithinRange MAX (perform MAX value op).2 := by
  unfold WithinRange at within ⊢
  cases op with
  | Inc =>
      simp only [perform]
      omega
  | Dec =>
      simp only [perform]
      omega
  | Get => exact within

/-- The assertion holds after any actions. -/
theorem after_within {MAX value : Int} (positive : 0 ≤ MAX) (within : WithinRange MAX value)
    (ops : List Op) : WithinRange MAX (after (perform MAX) value ops) := by
  induction ops generalizing value with
  | nil => exact within
  | cons op rest ih => exact ih (perform_within positive within op)

theorem within_init {MAX : Int} (positive : 0 ≤ MAX) : WithinRange MAX 0 :=
  ⟨Int.le_refl 0, Int.lt_add_one_of_le positive⟩

end FizzbeeMbt.Counter
