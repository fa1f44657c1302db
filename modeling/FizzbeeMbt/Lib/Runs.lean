import Mathlib.Data.List.Infix

/-! Labelled transition systems, their runs, and the instants of a run.

A run carries the trace of the events it emitted, newest event first, so that a
past instant of the run is a suffix of its trace. -/

namespace FizzbeeMbt.Runs

variable {σ ε : Type*}

structure System (σ ε : Type*) where
  start : σ → Prop
  step : σ → ε → σ → Prop

/-- A run all of whose steps met the condition `admits` at the trace and the
state they were taken in. -/
inductive Run (sys : System σ ε) (admits : List ε → σ → ε → Prop) : List ε → σ → Prop
  | start {s : σ} (initial : sys.start s) : Run sys admits [] s
  | step {trace : List ε} {s s' : σ} {event : ε} (before : Run sys admits trace s)
      (taken : sys.step s event s') (admitted : admits trace s event) :
      Run sys admits (event :: trace) s'

def anyStep : List ε → σ → ε → Prop := fun _ _ _ => True

/-- The action has a step from `s`. -/
def System.Enabled (sys : System σ ε) (action : ε → Prop) (s : σ) : Prop :=
  ∃ event s', action event ∧ sys.step s event s'

section Runs

variable {sys : System σ ε} {admits : List ε → σ → ε → Prop}

/-- The induction rule: what holds at the start and is kept by every admitted
step holds in every state of every run. -/
theorem Run.invariant (inv : List ε → σ → Prop)
    (initial : ∀ s, sys.start s → inv [] s)
    (preserved : ∀ trace s event s', Run sys admits trace s → inv trace s →
      admits trace s event → sys.step s event s' → inv (event :: trace) s')
    {trace : List ε} {s : σ} (run : Run sys admits trace s) : inv trace s := by
  induction run with
  | start found => exact initial _ found
  | step before taken admitted ih => exact preserved _ _ _ _ before ih admitted taken

theorem Run.last {event : ε} {trace : List ε} {s' : σ}
    (run : Run sys admits (event :: trace) s') :
    ∃ s, Run sys admits trace s ∧ admits trace s event ∧ sys.step s event s' := by
  cases run with
  | step before taken admitted => exact ⟨_, before, admitted, taken⟩

theorem Run.past {trace past : List ε} {s : σ} (run : Run sys admits trace s)
    (earlier : past <:+ trace) : ∃ s', Run sys admits past s' := by
  induction run with
  | start found =>
      rw [List.suffix_nil.mp earlier]
      exact ⟨_, .start found⟩
  | step before taken admitted ih =>
      rcases List.suffix_cons_iff.mp earlier with rfl | earlier
      · exact ⟨_, .step before taken admitted⟩
      · exact ih earlier

/-- The induction rule from a past instant on. -/
theorem Run.since (inv : List ε → σ → Prop) {trace past : List ε} {s : σ}
    (run : Run sys admits trace s) (earlier : past <:+ trace)
    (initial : ∀ s', Run sys admits past s' → inv past s')
    (preserved : ∀ trace s event s', past <:+ trace → Run sys admits trace s →
      inv trace s → admits trace s event → sys.step s event s' → inv (event :: trace) s') :
    inv trace s := by
  induction run with
  | start found =>
      obtain rfl := List.suffix_nil.mp earlier
      exact initial _ (.start found)
  | step before taken admitted ih =>
      rcases List.suffix_cons_iff.mp earlier with rfl | earlier
      · exact initial _ (.step before taken admitted)
      · exact preserved _ _ _ _ earlier before (ih earlier) admitted taken

/-- A run whose steps meet one condition meets another one that follows from it
in the states such runs reach. -/
theorem Run.refine {other : List ε → σ → ε → Prop}
    (implied : ∀ trace s event s', Run sys admits trace s → admits trace s event →
      sys.step s event s' → other trace s event)
    {trace : List ε} {s : σ} (run : Run sys admits trace s) : Run sys other trace s := by
  induction run with
  | start found => exact .start found
  | step before taken admitted ih => exact .step ih taken (implied _ _ _ _ before admitted taken)

/-- Every event of a run was emitted by a step from a state the run had reached
at that instant. -/
theorem Run.emitted {trace past : List ε} {event : ε} {s : σ}
    (run : Run sys admits trace s) (member : event :: past <:+ trace) :
    ∃ s₁ s₂, Run sys admits past s₁ ∧ admits past s₁ event ∧ sys.step s₁ event s₂ := by
  obtain ⟨s₂, upto⟩ := run.past member
  obtain ⟨s₁, before, admitted, taken⟩ := upto.last
  exact ⟨s₁, s₂, before, admitted, taken⟩

/-- The system started anew in a state it has reached. -/
def System.resumed (sys : System σ ε) (s : σ) : System σ ε where
  start s' := s' = s
  step := sys.step

theorem Run.resume {trace later : List ε} {s s' : σ} (run : Run sys anyStep trace s)
    (onward : Run (sys.resumed s) anyStep later s') : Run sys anyStep (later ++ trace) s' := by
  induction onward with
  | start found =>
      obtain rfl : _ = s := found
      exact run
  | step before taken admitted ih => exact ih.step taken trivial

end Runs

section Deterministic

variable {δ : Type*}

/-- A system in which an event fails or leads to one next state. -/
def System.ofNext (init : σ) (next : σ → ε → Except δ σ) : System σ ε where
  start s := s = init
  step s event s' := next s event = .ok s'

/-- Where the events lead, newest event first. -/
def reached (init : σ) (next : σ → ε → Except δ σ) : List ε → Except δ σ
  | [] => .ok init
  | event :: trace =>
      match reached init next trace with
      | .error e => .error e
      | .ok s => next s event

theorem run_of_reached {init : σ} {next : σ → ε → Except δ σ} {trace : List ε} {s : σ}
    (ended : reached init next trace = .ok s) : Run (.ofNext init next) anyStep trace s := by
  induction trace generalizing s with
  | nil => exact .start (Except.ok.inj ended).symm
  | cons event trace ih =>
      unfold reached at ended
      cases upto : reached init next trace with
      | error e => simp [upto] at ended
      | ok before =>
          simp only [upto] at ended
          exact (ih upto).step ended trivial

theorem reached_of_run {init : σ} {next : σ → ε → Except δ σ} {admits : List ε → σ → ε → Prop}
    {trace : List ε} {s : σ} (run : Run (.ofNext init next) admits trace s) :
    reached init next trace = .ok s := by
  induction run with
  | start initial => exact congrArg Except.ok initial.symm
  | step before taken admitted ih =>
      unfold reached
      rw [ih]
      exact taken

/-- The events of such a run determine its state. -/
theorem run_unique {init : σ} {next : σ → ε → Except δ σ} {admits : List ε → σ → ε → Prop}
    {trace : List ε} {s s' : σ} (run : Run (.ofNext init next) admits trace s)
    (run' : Run (.ofNext init next) admits trace s') : s = s' :=
  Except.ok.inj ((reached_of_run run).symm.trans (reached_of_run run'))

end Deterministic

/-- The instant just before the newest event that satisfies `found`. -/
def before (found : ε → Bool) : List ε → List ε
  | [] => []
  | event :: trace => if found event then trace else before found trace

theorem before_hit (found : ε → Bool) (event : ε) (trace : List ε)
    (hit : found event = true) : before found (event :: trace) = trace := by
  simp [before, hit]

theorem before_miss (found : ε → Bool) (event : ε) (trace : List ε)
    (miss : found event = false) : before found (event :: trace) = before found trace := by
  simp [before, miss]

theorem before_suffix (found : ε → Bool) (trace : List ε) : before found trace <:+ trace := by
  induction trace with
  | nil => exact List.suffix_refl []
  | cons event trace ih =>
      unfold before
      split
      · exact List.suffix_cons event trace
      · exact ih.trans (List.suffix_cons event trace)

/-- `p` is an instant between `early` and `late`, both included. -/
def Between (early p late : List ε) : Prop := early <:+ p ∧ p <:+ late

theorem between_now {early late : List ε} (order : early <:+ late) : Between early late late :=
  ⟨order, List.suffix_refl late⟩

theorem Between.later {early p late : List ε} (inside : Between early p late) (event : ε) :
    Between early p (event :: late) :=
  ⟨inside.1, inside.2.trans (List.suffix_cons event late)⟩

theorem suffix_squeeze {α : Type*} {low mid high : List α} (lower : low <:+ mid)
    (upper : mid <:+ high) (same : low = high) : mid = high := by
  apply upper.eq_of_length_le
  rw [← same]
  exact lower.length_le

/-- What is observed of a run cannot differ within a part of it that adds nothing. -/
theorem Between.observed {α : Type*} {early p late : List ε} (inside : Between early p late)
    (observe : ε → Option α) (idle : early.filterMap observe = late.filterMap observe) :
    p.filterMap observe = late.filterMap observe :=
  suffix_squeeze (inside.1.filterMap observe) (inside.2.filterMap observe) idle

/-- A mark that moves at observed events alone stays where none is added. -/
theorem mark_still {α β : Type*} (observe : ε → Option α) (mark : List ε → β)
    (kept : ∀ event trace, observe event = none → mark (event :: trace) = mark trace)
    {early late : List ε} (order : early <:+ late)
    (idle : early.filterMap observe = late.filterMap observe) : mark late = mark early := by
  induction late with
  | nil => rw [List.suffix_nil.mp order]
  | cons event late ih =>
      rcases List.suffix_cons_iff.mp order with rfl | earlier
      · rfl
      · have inside : Between early late (event :: late) := ⟨earlier, List.suffix_cons event late⟩
        have same := inside.observed observe idle
        have unseen : observe event = none := by
          cases seen : observe event with
          | none => rfl
          | some what => simp [seen] at same
        rw [kept event late unseen]
        exact ih earlier (idle.trans same.symm)

theorem Between.drop {early p late : List ε} (inside : Between early p late) :
    ∃ n, n ≤ late.length - early.length ∧ p = late.drop n := by
  refine ⟨late.length - p.length, ?_, List.suffix_iff_eq_drop.mp inside.2⟩
  have longer := inside.1.length_le
  omega

end FizzbeeMbt.Runs
