import FizzbeeMbt.Lib.Runs
import Mathlib.Algebra.Order.BigOperators.Group.Finset

/-! Progress: systems that, left alone, stop only where they are done, and do stop. -/

namespace FizzbeeMbt.Runs

variable {σ ε : Type*}

/-- The runs of inner steps alone, from `s` on. -/
abbrev InnerRun (sys : System σ ε) (inner : ε → Prop) (s : σ) : List ε → σ → Prop :=
  Run (sys.resumed s) fun _ _ event => inner event

/-- From `s` on the system can take only boundedly many inner steps, and after any of
them one that is its own is left to take until it is done. -/
structure Quiesces (sys : System σ ε) (inner own : ε → Prop) (done : σ → Prop) (s : σ) :
    Prop where
  bounded : ∃ n, ∀ later s', InnerRun sys inner s later s' → later.length ≤ n
  live : ∀ later s', InnerRun sys inner s later s' → ¬ done s' → sys.Enabled own s'

section Measures

variable {sys : System σ ε} {inner own : ε → Prop} {done : σ → Prop} {s : σ}

/-- Under an invariant under which inner steps lower the measure, it bounds how many there
are. -/
theorem length_le_measure (inv : σ → Prop) (measure : σ → ℕ) (now : inv s)
    (lowers : ∀ s event s', inv s → inner event → sys.step s event s' →
      inv s' ∧ measure s' < measure s) {later : List ε} {s' : σ}
    (onward : InnerRun sys inner s later s') :
    inv s' ∧ later.length + measure s' ≤ measure s := by
  induction onward with
  | start found =>
      obtain rfl : _ = s := found
      exact ⟨now, Nat.le_of_eq (Nat.zero_add _)⟩
  | step before taken admitted ih =>
      obtain ⟨kept, bound⟩ := ih
      obtain ⟨still, lower⟩ := lowers _ _ _ kept admitted taken
      refine ⟨still, ?_⟩
      rw [List.length_cons]
      omega

/-- The rule of measures: one of the system's own steps is enabled until it is done. -/
theorem quiesces_of_measure (inv : σ → Prop) (measure : σ → ℕ) (now : inv s)
    (lowers : ∀ s event s', inv s → inner event → sys.step s event s' →
      inv s' ∧ measure s' < measure s)
    (live : ∀ s, inv s → ¬ done s → sys.Enabled own s) : Quiesces sys inner own done s := by
  constructor
  · refine ⟨measure s, ?_⟩
    intro later s' onward
    have bound := (length_le_measure inv measure now lowers onward).2
    exact (Nat.le_add_right _ _).trans bound
  · intro later s' onward
    exact live s' (length_le_measure inv measure now lowers onward).1

/-- Its own steps, taken one after the other, end where the system is done. -/
theorem Quiesces.ends (quiesces : Quiesces sys inner own done s)
    (within : ∀ event, own event → inner event) :
    ∃ later s', InnerRun sys inner s later s' ∧ done s' := by
  by_contra never
  obtain ⟨n, bound⟩ := quiesces.bounded
  have longer : ∀ k, ∃ later s', InnerRun sys inner s later s' ∧ later.length = k := by
    intro k
    induction k with
    | zero => exact ⟨[], s, .start rfl, rfl⟩
    | succ k ih =>
        obtain ⟨later, s', onward, length⟩ := ih
        have undone : ¬ done s' := fun ended => never ⟨later, s', onward, ended⟩
        obtain ⟨event, s'', takes, taken⟩ := quiesces.live later s' onward undone
        refine ⟨event :: later, s'', onward.step taken (within event takes), ?_⟩
        rw [List.length_cons, length]
  obtain ⟨later, s', onward, length⟩ := longer (n + 1)
  have short := bound later s' onward
  omega

end Measures

section Shares

variable {ι : Type*} {members : Finset ι} {i : ι} {f g : ι → ℕ}

/-- One share drops and no other one rises. -/
theorem shares_lower (member : i ∈ members) (drops : g i < f i)
    (others : ∀ j, j ≠ i → g j ≤ f j) : ∑ j ∈ members, g j < ∑ j ∈ members, f j := by
  apply Finset.sum_lt_sum
  · intro j _
    by_cases same : j = i
    · exact same ▸ Nat.le_of_lt drops
    · exact others j same
  · exact ⟨i, member, drops⟩

/-- What one share loses another amount may gain. -/
theorem shares_exchange [DecidableEq ι] {m n : ℕ} (member : i ∈ members)
    (exchange : n + g i ≤ m + f i) (others : ∀ j, j ≠ i → g j = f j) :
    n + ∑ j ∈ members, g j ≤ m + ∑ j ∈ members, f j := by
  have rest : ∑ j ∈ members.erase i, g j = ∑ j ∈ members.erase i, f j :=
    Finset.sum_congr rfl fun j inside => others j (Finset.ne_of_mem_erase inside)
  rw [← Finset.add_sum_erase members g member, ← Finset.add_sum_erase members f member, rest]
  omega

/-- One share pays for a rise of each other one. -/
theorem shares_pay [DecidableEq ι] {n : ℕ} (member : i ∈ members) (enough : members.card ≤ n)
    (pays : g i + n ≤ f i) (others : ∀ j, j ≠ i → g j ≤ f j + 1) :
    ∑ j ∈ members, g j < ∑ j ∈ members, f j := by
  have rest : ∑ j ∈ members.erase i, g j ≤ ∑ j ∈ members.erase i, (f j + 1) :=
    Finset.sum_le_sum fun j inside => others j (Finset.ne_of_mem_erase inside)
  rw [Finset.sum_add_distrib, ← Finset.card_eq_sum_ones] at rest
  have fewer := Finset.card_erase_add_one member
  rw [← Finset.add_sum_erase members g member, ← Finset.add_sum_erase members f member]
  omega

end Shares

section Pools

variable {ι T : Type*}

/-- Threads that work their way back to `idle`. The work before a thread may depend on
the size of the state, to which each thread adds no more than it `gains`. -/
structure Pool (sys : System σ ε) (inner : ε → Prop) (ι T : Type*) where
  thread : σ → ι → T
  actor : ε → ι
  idle : T
  size : σ → ℕ
  gains : T → ℕ
  work : ℕ → T → ℕ
  rest : ∀ top, work top idle = 0
  mono : ∀ low high t, low ≤ high → work low t ≤ work high t
  others : ∀ s event s', sys.step s event s' → ∀ i, i ≠ actor event → thread s' i = thread s i
  exchange : ∀ s event s', sys.step s event s' → inner event →
    size s' + gains (thread s' (actor event)) ≤ size s + gains (thread s (actor event))
  works : ∀ s event s', sys.step s event s' → inner event → ∀ top, size s ≤ top →
    work top (thread s' (actor event)) < work top (thread s (actor event))

variable {sys : System σ ε} {inner : ε → Prop}

/-- How large the state can still get. -/
def Pool.top (pool : Pool sys inner ι T) (members : Finset ι) (s : σ) : ℕ :=
  pool.size s + ∑ i ∈ members, pool.gains (pool.thread s i)

def Pool.measure (pool : Pool sys inner ι T) (members : Finset ι) (s : σ) : ℕ :=
  ∑ i ∈ members, pool.work (pool.top members s) (pool.thread s i)

theorem Pool.busy (pool : Pool sys inner ι T) {s s' : σ} {event : ε}
    (taken : sys.step s event s') (admitted : inner event) :
    pool.thread s (pool.actor event) ≠ pool.idle := by
  intro idle
  have works := pool.works s event s' taken admitted (pool.size s) (Nat.le_refl _)
  rw [idle, pool.rest] at works
  exact Nat.not_lt_zero _ works

variable [DecidableEq ι]

theorem Pool.top_step (pool : Pool sys inner ι T) {members : Finset ι} {s s' : σ} {event : ε}
    (taken : sys.step s event s') (admitted : inner event)
    (member : pool.actor event ∈ members) : pool.top members s' ≤ pool.top members s := by
  apply shares_exchange member (pool.exchange s event s' taken admitted)
  intro i differ
  rw [pool.others s event s' taken i differ]

theorem Pool.measure_step (pool : Pool sys inner ι T) {members : Finset ι} {s s' : σ}
    {event : ε} (taken : sys.step s event s') (admitted : inner event)
    (member : pool.actor event ∈ members) :
    pool.measure members s' < pool.measure members s := by
  have lower := pool.top_step taken admitted member
  have bound : pool.size s ≤ pool.top members s := Nat.le_add_right _ _
  apply shares_lower member
  · exact (pool.mono _ _ _ lower).trans_lt (pool.works s event s' taken admitted _ bound)
  · intro i differ
    rw [pool.others s event s' taken i differ]
    exact pool.mono _ _ _ lower

/-- Only the threads that took a step in a run can be busy. -/
theorem Pool.idle_outside (pool : Pool sys inner ι T) {admits : List ε → σ → ε → Prop}
    (initial : ∀ s, sys.start s → ∀ i, pool.thread s i = pool.idle) {trace : List ε} {s : σ}
    (run : Run sys admits trace s) :
    ∀ i, i ∉ (trace.map pool.actor).toFinset → pool.thread s i = pool.idle := by
  induction run with
  | start found =>
      intro i _
      exact initial _ found i
  | step before taken admitted ih =>
      intro i outside
      simp only [List.map_cons, List.toFinset_cons, Finset.mem_insert, not_or] at outside
      rw [pool.others _ _ _ taken i outside.1]
      exact ih i outside.2

/-- The rule of pools: inner steps keep an invariant, under which the system can go on
until it is done. -/
theorem Pool.quiesces (pool : Pool sys inner ι T) {own : ε → Prop} {done : σ → Prop}
    {admits : List ε → σ → ε → Prop}
    (initial : ∀ s, sys.start s → ∀ i, pool.thread s i = pool.idle) (inv : σ → Prop)
    (kept : ∀ s event s', inv s → sys.step s event s' → inv s')
    (live : ∀ s, inv s → ¬ done s → sys.Enabled own s) {trace : List ε} {s : σ}
    (run : Run sys admits trace s) (now : inv s) : Quiesces sys inner own done s := by
  let members := (trace.map pool.actor).toFinset
  apply quiesces_of_measure
    (fun s => inv s ∧ ∀ i, i ∉ members → pool.thread s i = pool.idle) (pool.measure members)
  · exact ⟨now, pool.idle_outside initial run⟩
  · rintro s event s' ⟨still, outside⟩ admitted taken
    have member : pool.actor event ∈ members := by
      by_contra absent
      exact pool.busy taken admitted (outside _ absent)
    refine ⟨⟨kept s event s' still taken, ?_⟩, pool.measure_step taken admitted member⟩
    intro i absent
    have differ : i ≠ pool.actor event := fun same => absent (same ▸ member)
    rw [pool.others s event s' taken i differ]
    exact outside i absent
  · rintro s ⟨still, -⟩ undone
    exact live s still undone

end Pools

end FizzbeeMbt.Runs
