import FizzbeeMbt.FizzStore.Writer

/-! The assertion `DirtyRead` of the specification, for any keys, values and number of
Put actions. -/

namespace FizzbeeMbt.FizzStore

open FizzbeeMbt.Maps FizzbeeMbt.Runs

variable {Key Value : Type} [DecidableEq Key] {NOT_FOUND : Value}

/-- What the buffers and the files hold together, and what each point of a Flush says
of `immutable_buf`. -/
structure Layered (s : State Key Value) : Prop where
  numbered : 1 ≤ s.writer.next_index
  last : ∀ k, s._last_put.lookup k =
    (s.writer.buf.lookup k).or ((s.writer.immutable_buf.lookup k).or
      (s.store.scan k (s.writer.next_index - 1)))
  cold : s.flush = .idle → s.writer.immutable_buf.isEmpty = true
  landed : s.flush = .written → ∀ k v, s.writer.immutable_buf.lookup k = some v →
    s.store.scan k (s.writer.next_index - 1) = some v

theorem layered_init : Layered (Init : State Key Value) :=
  ⟨Nat.le_refl 1, fun _ => rfl, fun _ => rfl, fun point => by cases point⟩

theorem Layered.put {s : State Key Value} (layered : Layered s) (k : Key) (v : Value) :
    Layered { s with writer := s.writer.Put k v, _last_put := s._last_put.insert k v } := by
  refine ⟨layered.numbered, ?_, layered.cold, layered.landed⟩
  intro k'
  simp only [Writer.Put, lookup_insert_if]
  by_cases same : k' = k
  · simp [same]
  · rw [if_neg same, if_neg same]
    exact layered.last k'

/-- Before a Flush nothing is frozen, so freezing moves the whole buffer one layer down. -/
theorem Layered.freeze {s : State Key Value} (layered : Layered s) (point : s.flush = .idle) :
    Layered { s with writer := s.writer.freeze, flush := .frozen } := by
  have cold := layered.cold point
  unfold Writer.freeze
  cases empty : s.writer.buf.isEmpty with
  | true => exact ⟨layered.numbered, layered.last, by simp, by simp⟩
  | false =>
      simp only [cold, Bool.not_true, Bool.or_false, Bool.false_eq_true, if_false]
      refine ⟨layered.numbered, ?_, by simp, by simp⟩
      intro k
      have bare := (isEmpty_iff _).mp cold k
      rw [layered.last k, bare, Option.none_or]
      rfl

/-- The frozen entries come to lie on top of the files they already hid. -/
theorem Layered.write {s : State Key Value} (layered : Layered s) :
    Layered
      { s with
        writer := (s.writer.write s.store).1
        store := (s.writer.write s.store).2
        flush := .written } := by
  unfold Writer.write
  cases empty : s.writer.immutable_buf.isEmpty with
  | true =>
      refine ⟨layered.numbered, layered.last, by simp, ?_⟩
      intro _ k v found
      rw [if_pos rfl, (isEmpty_iff _).mp empty k] at found
      cases found
  | false =>
      obtain ⟨n, number⟩ := Nat.exists_eq_add_of_le' layered.numbered
      have last := layered.last
      simp only [number, Nat.add_sub_cancel] at last
      refine ⟨Nat.le_add_left 1 _, ?_, by simp, ?_⟩
      · intro k
        simp only [number, Bool.false_eq_true, if_false, Nat.add_sub_cancel, scan_write_top, last k]
        cases s.writer.immutable_buf.lookup k <;> rfl
      · intro _ k v found
        simp only [Bool.false_eq_true, if_false] at found
        simp [number, scan_write_top, found]

theorem Layered.clear {s : State Key Value} (layered : Layered s) (point : s.flush = .written) :
    Layered { s with writer := s.writer.clear, flush := .idle } := by
  refine ⟨layered.numbered, ?_, fun _ => rfl, by simp⟩
  intro k
  rw [layered.last k]
  cases frozen : s.writer.immutable_buf.lookup k with
  | none => rfl
  | some v =>
      have kept := layered.landed point k v frozen
      simp only [Writer.clear, kept]
      rfl

theorem layered_run {trace : List (Event Key Value)} {s : State Key Value}
    (run : Run (system NOT_FOUND) anyStep trace s) : Layered s := by
  apply run.invariant (fun _ s => Layered s)
  · rintro s rfl
    exact layered_init
  · intro trace s event s' _ layered _ taken
    cases taken with
    | put k v => exact layered.put k v
    | got k dirty_read => exact layered
    | freeze point => exact layered.freeze point
    | write point => exact layered.write
    | clear point => exact layered.clear point

theorem get_dirty (writer : Writer Key Value) (store : Storage Key Value) (k : Key) :
    writer.get NOT_FOUND store k true =
      (((writer.buf.lookup k).or ((writer.immutable_buf.lookup k).or
        (store.scan k (writer.next_index - 1))))).getD NOT_FOUND := by
  simp only [Writer.get, if_true]
  cases writer.buf.lookup k <;> cases writer.immutable_buf.lookup k <;> rfl

/-- `DirtyRead`, wherever a Flush stands: a dirty read finds the last put of its key, a
put of `NOT_FOUND` hiding whatever older files hold. -/
theorem dirty_read_last_put {trace : List (Event Key Value)} {s : State Key Value}
    (run : Run (system NOT_FOUND) anyStep trace s) (k : Key) :
    s.writer.get NOT_FOUND s.store k true = (s._last_put.lookup k).getD NOT_FOUND := by
  rw [get_dirty, (layered_run run).last k]

/-- A value in one file, its deletion in the next, and the second Flush not yet over. -/
def hiddenValue : List (Event String String) :=
  [.write, .freeze, .put "k0" "NOT_FOUND", .clear, .write, .freeze, .put "k0" "v0"]

theorem dirty_read_last_put_hidden :
    ∃ s, Run (system "NOT_FOUND") anyStep hiddenValue s ∧ s.flush = .written ∧
      s.writer.next_index = 3 ∧
        s.writer.get "NOT_FOUND" s.store "k0" true = "NOT_FOUND" := by
  have first := (((Run.start rfl : Run (system "NOT_FOUND") anyStep [] Init).step
    (.put "k0" "v0") trivial).step (.freeze rfl) trivial).step (.write rfl) trivial
  have run := (((first.step (.clear rfl) trivial).step
    (.put "k0" "NOT_FOUND") trivial).step (.freeze rfl) trivial).step (.write rfl) trivial
  exact ⟨_, run, rfl, rfl, (dirty_read_last_put run "k0").trans rfl⟩

end FizzbeeMbt.FizzStore
