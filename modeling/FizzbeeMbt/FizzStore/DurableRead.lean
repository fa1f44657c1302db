import FizzbeeMbt.FizzStore.DirtyRead
import FizzbeeMbt.Lib.Fairness

/-! The assertion `DurableRead` of the specification: under the fair action Flush the
files catch up with every Put, however the other actions fall between its steps. -/

namespace FizzbeeMbt.FizzStore

open FizzbeeMbt.Maps FizzbeeMbt.Runs Filter

variable {Key Value : Type} [DecidableEq Key] {NOT_FOUND : Value}

def isPut (event : Event Key Value) : Prop :=
  match event with
  | .put _ _ => True
  | _ => False

/-- The steps of the action Flush. -/
def isFlush (event : Event Key Value) : Prop :=
  match event with
  | .freeze => True
  | .write => True
  | .clear => True
  | _ => False

/-- The statement the assertion `DurableRead` makes of one state. -/
def DurableRead (NOT_FOUND : Value) (s : State Key Value) : Prop :=
  ∀ k, s.writer.get NOT_FOUND s.store k false = (s._last_put.lookup k).getD NOT_FOUND

def FlushPoint.next : FlushPoint → FlushPoint
  | .idle => .frozen
  | .frozen => .written
  | .written => .idle

/-- What the files hold. -/
def State.files (s : State Key Value) (k : Key) : Option Value :=
  s.store.scan k (s.writer.next_index - 1)

/-- What the files hold once `immutable_buf` is written. -/
def State.frozen (s : State Key Value) (k : Key) : Option Value :=
  (s.writer.immutable_buf.lookup k).or (s.files k)

theorem flush_enabled (s : State Key Value) : (system NOT_FOUND).Enabled isFlush s := by
  cases point : s.flush with
  | idle => exact ⟨.freeze, _, trivial, .freeze point⟩
  | frozen => exact ⟨.write, _, trivial, .write point⟩
  | written => exact ⟨.clear, _, trivial, .clear point⟩

section Steps

variable {s s' : State Key Value} {event : Event Key Value}

theorem flush_next (taken : Step NOT_FOUND s event s') (flushes : isFlush event) :
    s'.flush = s.flush.next := by
  cases taken with
  | put k v => exact flushes.elim
  | got k dirty_read => exact flushes.elim
  | freeze point => rw [point]; rfl
  | write point => rw [point]; rfl
  | clear point => rw [point]; rfl

theorem other_keeps (taken : Step NOT_FOUND s event s') (other : ¬ isFlush event) :
    s'.flush = s.flush ∧ s'.frozen = s.frozen := by
  cases taken with
  | put k v => exact ⟨rfl, rfl⟩
  | got k dirty_read => exact ⟨rfl, rfl⟩
  | _ => exact absurd trivial other

theorem last_put_keeps (taken : Step NOT_FOUND s event s') (other : ¬ isPut event) :
    s'._last_put = s._last_put := by
  cases taken with
  | put k v => exact absurd trivial other
  | _ => rfl

omit [DecidableEq Key] in
theorem freeze_files (writer : Writer Key Value) :
    writer.freeze.next_index = writer.next_index := by
  unfold Writer.freeze
  split <;> rfl

/-- A Flush freezes everything that was put. -/
theorem freeze_frozen (layered : Layered s) (point : s.flush = .idle) :
    State.frozen { s with writer := s.writer.freeze, flush := .frozen } = s._last_put.lookup := by
  funext k
  have after := (layered.freeze point).last k
  have drained : s.writer.freeze.buf.lookup k = none := by
    unfold Writer.freeze
    cases empty : s.writer.buf.isEmpty with
    | true => simpa using (isEmpty_iff _).mp empty k
    | false => simp [layered.cold point]
  simp only [drained, Option.none_or] at after
  exact after.symm

theorem write_files (layered : Layered s) :
    State.files
      { s with
        writer := (s.writer.write s.store).1
        store := (s.writer.write s.store).2
        flush := .written } = s.frozen := by
  funext k
  unfold State.frozen State.files Writer.write
  cases empty : s.writer.immutable_buf.isEmpty with
  | true => simp [(isEmpty_iff _).mp empty k]
  | false =>
      obtain ⟨n, number⟩ := Nat.exists_eq_add_of_le' layered.numbered
      simp [number, scan_write_top]

end Steps

/-- The files, and what a Flush has frozen on top of them, are among the tables `seen`. -/
structure Follows (seen : (Key → Option Value) → Prop) (s : State Key Value) : Prop where
  files : seen s.files
  frozen : s.flush = .frozen → seen s.frozen

/-- What follows the tables `seen` so far follows them and the last puts of now after
every step. -/
theorem Follows.step {seen seen' : (Key → Option Value) → Prop} {s s' : State Key Value}
    {event : Event Key Value} (follows : Follows seen s) (layered : Layered s)
    (taken : Step NOT_FOUND s event s') (kept : ∀ table, seen table → seen' table)
    (now : seen' s'._last_put.lookup) : Follows seen' s' := by
  cases taken with
  | put k v => exact ⟨kept _ follows.files, fun point => kept _ (follows.frozen point)⟩
  | got k dirty_read => exact ⟨kept _ follows.files, fun point => kept _ (follows.frozen point)⟩
  | freeze point =>
      constructor
      · have same : State.files { s with writer := s.writer.freeze, flush := .frozen } =
            s.files := by
          funext k
          simp only [State.files, freeze_files]
        rw [same]
        exact kept _ follows.files
      · intro _
        rw [freeze_frozen layered point]
        exact now
  | write point =>
      constructor
      · rw [write_files layered]
        exact kept _ (follows.frozen point)
      · intro frozen
        cases frozen
  | clear point =>
      constructor
      · exact kept _ follows.files
      · intro frozen
        cases frozen

section Executions

variable (Key) in
abbrev Behaviour (NOT_FOUND : Value) : Type :=
  Execution (system NOT_FOUND : System (State Key Value) (Event Key Value))

/-- The tables of last puts between two instants of an execution, both included. -/
def Seen (exec : Behaviour Key NOT_FOUND) (onset n : ℕ)
    (table : Key → Option Value) : Prop :=
  ∃ q, onset ≤ q ∧ q ≤ n ∧ table = (exec.state q)._last_put.lookup

theorem Seen.later {exec : Behaviour Key NOT_FOUND} {onset n : ℕ}
    {table : Key → Option Value} (seen : Seen exec onset n table) :
    Seen exec onset (n + 1) table := by
  obtain ⟨q, after, upto, same⟩ := seen
  exact ⟨q, after, Nat.le_succ_of_le upto, same⟩

theorem seen_now (exec : Behaviour Key NOT_FOUND) {onset n : ℕ}
    (since : onset ≤ n) : Seen exec onset n (exec.state n)._last_put.lookup :=
  ⟨n, since, Nat.le_refl n, rfl⟩

variable {exec : Behaviour Key NOT_FOUND}

theorem layered_at (n : ℕ) : Layered (exec.state n) := layered_run (exec.run n)

theorem point_leads (fair : exec.WeaklyFair isFlush) (onset : ℕ) (point : FlushPoint)
    (once : ∃ n, onset ≤ n ∧ (exec.state n).flush = point) :
    ∃ n, onset ≤ n ∧ (exec.state n).flush = point.next := by
  apply fair.leads (p := fun n => (exec.state n).flush = point) ?_ ?_ ?_ once
  · intro n _ _
    exact flush_enabled _
  · intro n _ now other
    exact (other_keeps (exec.steps n) other).1.trans now
  · intro n _ now flushes
    rw [flush_next (exec.steps n) flushes, now]

/-- Wherever a Flush stands, the next one starts. -/
theorem idle_again (fair : exec.WeaklyFair isFlush) (onset : ℕ) :
    ∃ n, onset ≤ n ∧ (exec.state n).flush = .idle := by
  cases point : (exec.state onset).flush with
  | idle => exact ⟨onset, Nat.le_refl _, point⟩
  | frozen =>
      exact point_leads fair onset .written
        (point_leads fair onset .frozen ⟨onset, Nat.le_refl _, point⟩)
  | written => exact point_leads fair onset .written ⟨onset, Nat.le_refl _, point⟩

/-- From some instant on the files hold the last puts of an instant since `onset`. -/
theorem follows_eventually (fair : exec.WeaklyFair isFlush) (onset : ℕ) :
    ∀ᶠ n in atTop, Follows (Seen exec onset n) (exec.state n) := by
  have frozen : ∃ n, onset ≤ n ∧
      ((exec.state n).flush = .frozen ∧ Seen exec onset n (exec.state n).frozen) := by
    apply fair.leads (p := fun n => (exec.state n).flush = .idle) ?_ ?_ ?_ (idle_again fair onset)
    · intro n _ _
      exact flush_enabled _
    · intro n _ now other
      exact (other_keeps (exec.steps n) other).1.trans now
    · intro n since now flushes
      have point := flush_next (exec.steps n) flushes
      rw [now] at point
      refine ⟨point, n, since, Nat.le_succ n, ?_⟩
      have taken := exec.steps n
      generalize exec.event n = event at taken flushes
      generalize exec.state (n + 1) = s' at taken point
      cases taken with
      | freeze idle => exact freeze_frozen (layered_at n) idle
      | write frozen => rw [now] at frozen; cases frozen
      | clear written => rw [now] at written; cases written
      | _ => exact flushes.elim
  have follows : ∃ n, onset ≤ n ∧ Follows (Seen exec onset n) (exec.state n) := by
    apply fair.leads (p := fun n => (exec.state n).flush = .frozen ∧
      Seen exec onset n (exec.state n).frozen) ?_ ?_ ?_ frozen
    · intro n _ _
      exact flush_enabled _
    · intro n _ now other
      obtain ⟨point, same⟩ := other_keeps (exec.steps n) other
      rw [point, same]
      exact ⟨now.1, now.2.later⟩
    · intro n _ now flushes
      have seen := now.2.later
      have taken := exec.steps n
      generalize exec.event n = event at taken flushes
      generalize exec.state (n + 1) = s' at taken
      cases taken with
      | freeze idle => rw [now.1] at idle; cases idle
      | write frozen =>
          refine ⟨?_, fun point => by cases point⟩
          rw [write_files (layered_at n)]
          exact seen
      | clear written => rw [now.1] at written; cases written
      | _ => exact flushes.elim
  apply eventually_of_kept ?_ follows
  intro n since now
  exact now.step (layered_at n) (exec.steps n) (fun _ seen => seen.later)
    (seen_now exec (since.trans (Nat.le_succ n)))

theorem get_durable (s : State Key Value) (k : Key) :
    s.writer.get NOT_FOUND s.store k false = (s.files k).getD NOT_FOUND := rfl

/-- The next step of Flush, wherever it stands. -/
def flushOnce (s : State Key Value) : Event Key Value × State Key Value :=
  match s.flush with
  | .idle => (.freeze, { s with writer := s.writer.freeze, flush := .frozen })
  | .frozen =>
      (.write,
        { s with
          writer := (s.writer.write s.store).1
          store := (s.writer.write s.store).2
          flush := .written })
  | .written => (.clear, { s with writer := s.writer.clear, flush := .idle })

theorem flushOnce_step (s : State Key Value) :
    Step NOT_FOUND s (flushOnce s).1 (flushOnce s).2 ∧ isFlush (flushOnce s).1 := by
  unfold flushOnce
  cases point : s.flush with
  | idle => exact ⟨.freeze point, trivial⟩
  | frozen => exact ⟨.write point, trivial⟩
  | written => exact ⟨.clear point, trivial⟩

/-- One Put and then Flush for ever. -/
def putThenFlush : Behaviour String "NOT_FOUND" :=
  .ofSchedule Init
    (fun n s =>
      match n with
      | 0 =>
          (.put "k0" "v0",
            { s with writer := s.writer.Put "k0" "v0", _last_put := s._last_put.insert "k0" "v0" })
      | _ + 1 => flushOnce s)
    rfl
    (fun n s =>
      match n with
      | 0 => .put "k0" "v0"
      | _ + 1 => (flushOnce_step s).1)

theorem putThenFlush_flushes (n : ℕ) : isFlush (putThenFlush.event (n + 1)) :=
  (@flushOnce_step String String _ "NOT_FOUND" _).2

theorem putThenFlush_fair : putThenFlush.WeaklyFair isFlush := by
  intro _
  apply frequently_atTop.mpr
  intro n
  exact ⟨n + 1, Nat.le_succ n, putThenFlush_flushes n⟩

/-- Without dirty reads a Get lags behind, never for good: from some instant after
`onset` on, all Gets answer for the last puts of one instant since `onset`. -/
theorem durable_read_catches_up (exec : Behaviour Key NOT_FOUND)
    (fair : exec.WeaklyFair isFlush) (onset : ℕ) :
    ∀ᶠ n in atTop, ∃ q, onset ≤ q ∧ q ≤ n ∧
      ∀ k, (exec.state n).writer.get NOT_FOUND (exec.state n).store k false =
        ((exec.state q)._last_put.lookup k).getD NOT_FOUND := by
  filter_upwards [follows_eventually fair onset] with n follows
  obtain ⟨q, after, upto, same⟩ := follows.files
  refine ⟨q, after, upto, ?_⟩
  intro k
  rw [get_durable, same]

theorem durable_read_catches_up_flushing :
    ∀ᶠ n in atTop, ∃ q, 1 ≤ q ∧ q ≤ n ∧
      ∀ k, (putThenFlush.state n).writer.get "NOT_FOUND" (putThenFlush.state n).store k false =
        ((putThenFlush.state q)._last_put.lookup k).getD "NOT_FOUND" :=
  durable_read_catches_up putThenFlush putThenFlush_fair 1

/-- `eventually always DurableRead`: Flush being fair and the Puts coming to an end. -/
theorem durable_read_eventually_always (exec : Behaviour Key NOT_FOUND)
    (fair : exec.WeaklyFair isFlush) (ending : ∀ᶠ n in atTop, ¬ isPut (exec.event n)) :
    ∀ᶠ n in atTop, DurableRead NOT_FOUND (exec.state n) := by
  obtain ⟨onset, silent⟩ := eventually_atTop.mp ending
  have settled : ∀ n, onset ≤ n →
      (exec.state n)._last_put = (exec.state onset)._last_put := by
    intro n since
    induction n, since using Nat.le_induction with
    | base => rfl
    | succ n since ih => exact (last_put_keeps (exec.steps n) (silent n since)).trans ih
  filter_upwards [follows_eventually fair onset, eventually_ge_atTop onset] with n follows since k
  obtain ⟨q, after, upto, same⟩ := follows.files
  rw [get_durable, same, settled q after, settled n since]

theorem durable_read_eventually_always_flushing :
    putThenFlush.event 0 = .put "k0" "v0" ∧
      ∀ᶠ n in atTop, DurableRead "NOT_FOUND" (putThenFlush.state n) := by
  refine ⟨rfl, durable_read_eventually_always putThenFlush putThenFlush_fair ?_⟩
  apply eventually_atTop.mpr
  refine ⟨1, ?_⟩
  intro n later puts
  obtain ⟨m, rfl⟩ := Nat.exists_eq_add_of_le' later
  have flushes := putThenFlush_flushes m
  cases event : putThenFlush.event (m + 1) with
  | put k v => rw [event] at flushes; exact flushes.elim
  | _ => rw [event] at puts; exact puts.elim

end Executions

end FizzbeeMbt.FizzStore
