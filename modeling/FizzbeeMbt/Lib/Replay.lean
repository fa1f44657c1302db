import Mathlib.Data.List.Basic

/-! Machines that answer every input, and when the answers of two of them agree. -/

namespace FizzbeeMbt.Replay

variable {σ τ ι ο ο' : Type*}

abbrev Machine (σ ι ο : Type*) := σ → ι → ο × σ

/-- The answers to a sequence of inputs, in its order. -/
def replay (machine : Machine σ ι ο) : σ → List ι → List ο
  | _, [] => []
  | s, input :: rest => (machine s input).1 :: replay machine (machine s input).2 rest

/-- The state after a sequence of inputs. -/
def after (machine : Machine σ ι ο) : σ → List ι → σ
  | s, [] => s
  | s, input :: rest => after machine (machine s input).2 rest

/-- From related states each input is answered alike, and leads to related states. -/
structure Simulates (machine : Machine σ ι ο) (spec : Machine τ ι ο') (shown : ο' → ο)
    (related : σ → τ → Prop) : Prop where
  answer : ∀ s t input, related s t → (machine s input).1 = shown (spec t input).1
  next : ∀ s t input, related s t → related (machine s input).2 (spec t input).2

theorem Simulates.replay {machine : Machine σ ι ο} {spec : Machine τ ι ο'} {shown : ο' → ο}
    {related : σ → τ → Prop} (simulates : Simulates machine spec shown related) {s : σ} {t : τ}
    (start : related s t) (inputs : List ι) :
    replay machine s inputs = (replay spec t inputs).map shown := by
  induction inputs generalizing s t with
  | nil => rfl
  | cons input rest ih =>
      simp only [Replay.replay, List.map_cons]
      rw [simulates.answer s t input start, ih (simulates.next s t input start)]

section Append

variable (machine : Machine σ ι ο)

theorem after_append (s : σ) (earlier later : List ι) :
    after machine s (earlier ++ later) = after machine (after machine s earlier) later := by
  induction earlier generalizing s with
  | nil => rfl
  | cons input rest ih => exact ih (machine s input).2

theorem replay_append (s : σ) (earlier later : List ι) :
    replay machine s (earlier ++ later) =
      replay machine s earlier ++ replay machine (after machine s earlier) later := by
  induction earlier generalizing s with
  | nil => rfl
  | cons input rest ih => exact congrArg (_ :: ·) (ih (machine s input).2)

theorem replay_length (s : σ) (inputs : List ι) :
    (replay machine s inputs).length = inputs.length := by
  induction inputs generalizing s with
  | nil => rfl
  | cons input rest ih => exact congrArg (· + 1) (ih (machine s input).2)

/-- Equal answers to a sequence are equal at each of its inputs. -/
theorem answer_of_replay {machine : Machine σ ι ο} {spec : Machine τ ι ο'} {shown : ο' → ο}
    {s : σ} {t : τ} {earlier later : List ι} {input : ι}
    (same : replay machine s (earlier ++ input :: later) =
      (replay spec t (earlier ++ input :: later)).map shown) :
    (machine (after machine s earlier) input).1 = shown (spec (after spec t earlier) input).1 := by
  rw [replay_append, replay_append, List.map_append] at same
  have lengths : (replay machine s earlier).length = ((replay spec t earlier).map shown).length := by
    rw [List.length_map, replay_length, replay_length]
  exact (List.cons.inj (List.append_inj same lengths).2).1

end Append

section Guarded

variable (spec : Machine τ ι ο') (guard : τ → ι → Prop)

/-- The guard holds at every input of a sequence, in the state it finds. -/
def Guarded : τ → List ι → Prop
  | _, [] => True
  | t, input :: rest => guard t input ∧ Guarded (spec t input).2 rest

theorem guarded_append (t : τ) (earlier later : List ι) :
    Guarded spec guard t (earlier ++ later) ↔
      Guarded spec guard t earlier ∧ Guarded spec guard (after spec t earlier) later := by
  induction earlier generalizing t with
  | nil => exact (true_and _).symm.to_iff
  | cons input rest ih =>
      simp only [List.cons_append, Guarded, after, ih]
      exact and_assoc.symm

theorem guarded_of_forall (always : ∀ t input, guard t input) (t : τ) (inputs : List ι) :
    Guarded spec guard t inputs := by
  induction inputs generalizing t with
  | nil => trivial
  | cons input rest ih => exact ⟨always t input, ih (spec t input).2⟩

/-- Where the guard fails first. -/
theorem first_unguarded {t : τ} {inputs : List ι} (fails : ¬Guarded spec guard t inputs) :
    ∃ earlier input later, inputs = earlier ++ input :: later ∧
      Guarded spec guard t earlier ∧ ¬guard (after spec t earlier) input := by
  induction inputs generalizing t with
  | nil => exact absurd trivial fails
  | cons input rest ih =>
      by_cases holds : guard t input
      · obtain ⟨earlier, input', later, rfl, guarded, fails'⟩ :=
          ih fun guarded => fails ⟨holds, guarded⟩
        exact ⟨input :: earlier, input', later, rfl, ⟨holds, guarded⟩, fails'⟩
      · exact ⟨[], input, rest, rfl, trivial, holds⟩

/-- A simulation of the inputs that meet the guard. -/
structure SimulatesWhile (machine : Machine σ ι ο) (spec : Machine τ ι ο') (shown : ο' → ο)
    (related : σ → τ → Prop) (guard : τ → ι → Prop) : Prop where
  answer : ∀ s t input, related s t → guard t input → (machine s input).1 = shown (spec t input).1
  next : ∀ s t input, related s t → guard t input → related (machine s input).2 (spec t input).2

variable {spec} {guard} {machine : Machine σ ι ο} {shown : ο' → ο} {related : σ → τ → Prop}

theorem SimulatesWhile.replay (simulates : SimulatesWhile machine spec shown related guard)
    {s : σ} {t : τ} (start : related s t) {inputs : List ι} (guarded : Guarded spec guard t inputs) :
    replay machine s inputs = (replay spec t inputs).map shown := by
  induction inputs generalizing s t with
  | nil => rfl
  | cons input rest ih =>
      obtain ⟨holds, guarded⟩ := guarded
      simp only [Replay.replay, List.map_cons]
      rw [simulates.answer s t input start holds, ih (simulates.next s t input start holds) guarded]

theorem SimulatesWhile.after (simulates : SimulatesWhile machine spec shown related guard)
    {s : σ} {t : τ} (start : related s t) {inputs : List ι} (guarded : Guarded spec guard t inputs) :
    related (after machine s inputs) (after spec t inputs) := by
  induction inputs generalizing s t with
  | nil => exact start
  | cons input rest ih =>
      obtain ⟨holds, guarded⟩ := guarded
      exact ih (simulates.next s t input start holds) guarded

end Guarded

end FizzbeeMbt.Replay
