import FizzbeeMbt.Counter.Agreement
import FizzbeeMbt.Counter.Handles

/-! The TypeScript adapter of `counter.fizz`: its sessions, one after the other, against a
table that they share with each other and with everyone else. -/

namespace FizzbeeMbt.Counter.Ts

open FizzbeeMbt.Replay FizzbeeMbt.Runs

/-- The numbers of a counter whose limit is a small integer. -/
structure MemCounter where
  limit : Int
  value : Int
  deriving DecidableEq, Repr

def MemCounter.new (limit : Int) : MemCounter := ⟨limit, 0⟩

def MemCounter.inc (c : MemCounter) : MemCounter :=
  if c.value < c.limit then { c with value := c.value + 1 } else c

def MemCounter.dec (c : MemCounter) : MemCounter :=
  if c.value > 0 then { c with value := c.value - 1 } else c

def MemCounter.machine : Machine MemCounter Op Answer
  | c, .Inc => (.ok none, c.inc)
  | c, .Dec => (.ok none, c.dec)
  | c, .Get => (.ok (some c.value), c)

/-- The implementations of the interface `Counter`. -/
inductive Implementation where
  | mem (counter : MemCounter)
  | pg (counter : PGCounter)
  deriving DecidableEq, Repr

/-- The adapter, and the table of the database. -/
structure CounterModelAdapter where
  useMemCounter : Bool
  counter : Option Implementation
  table : Table
  deriving DecidableEq, Repr

def testCounter : String := "test-counter"

/-- `DELETE FROM counters WHERE name = 'test-counter'`. -/
def deleteTestCounter (table : Table) : Table := table.filter fun row => row.name ≠ testCounter

namespace CounterModelAdapter

def init (adapter : CounterModelAdapter) : CounterModelAdapter :=
  if adapter.useMemCounter then { adapter with counter := some (.mem (.new 3)) }
  else
    let created := PGCounter.create (deleteTestCounter adapter.table) testCounter 3
    { adapter with counter := some (.pg created.1), table := created.2 }

/-- The pool has ended after it, and with it the use of a handle. -/
def cleanup (adapter : CounterModelAdapter) : CounterModelAdapter :=
  match adapter.counter with
  | some (.pg _) =>
      { adapter with counter := none, table := deleteTestCounter adapter.table }
  | _ => adapter

/-- `actionInc`, `actionGet` and `actionDec` of the counter's role. -/
def action (adapter : CounterModelAdapter) (op : Op) : Implementation → Answer × CounterModelAdapter
  | .mem counter =>
      ((MemCounter.machine counter op).1,
        { adapter with counter := some (.mem (MemCounter.machine counter op).2) })
  | .pg counter =>
      ((Pg.machine counter adapter.table op).1,
        { adapter with table := (Pg.machine counter adapter.table op).2 })

end CounterModelAdapter

inductive Event where
  | init
  | action (op : Op) (answer : Answer)
  | elsewhere (statement : Statement)
  | cleanup

/-- What a statement of another handle makes of the table. -/
def executed (table : Table) (statement : Statement) : Table :=
  (statement.execute ⟨table, []⟩).table

inductive Step : CounterModelAdapter → Event → CounterModelAdapter → Prop
  | init (adapter : CounterModelAdapter) : Step adapter .init adapter.init
  | action (adapter : CounterModelAdapter) (op : Op) {counter : Implementation}
      (made : adapter.counter = some counter) :
      Step adapter (.action op (adapter.action op counter).1) (adapter.action op counter).2
  | elsewhere (adapter : CounterModelAdapter) (statement : Statement)
      (other : statement.name ≠ testCounter) :
      Step adapter (.elsewhere statement)
        { adapter with table := executed adapter.table statement }
  | cleanup (adapter : CounterModelAdapter) : Step adapter .cleanup adapter.cleanup

/-- `name` is the primary key. -/
def Keyed (table : Table) : Prop := ∀ name, (rowsOf name table).length ≤ 1

/-- The adapter before its first session, on any table. -/
def sessions (useMemCounter : Bool) (table : Table) : System CounterModelAdapter Event where
  start adapter := adapter = ⟨useMemCounter, none, table⟩
  step := Step

section History

/-- The actions of the newest session. -/
def actionsSince : List Event → List Op
  | [] => []
  | .init :: _ => []
  | .action op _ :: earlier => actionsSince earlier ++ [op]
  | _ :: earlier => actionsSince earlier

/-- The table that the statements elsewhere alone would have made. -/
def withoutSessions (table : Table) : List Event → Table
  | [] => table
  | .elsewhere statement :: earlier => executed (withoutSessions table earlier) statement
  | _ :: earlier => withoutSessions table earlier

end History

section Tables

variable {name : String} {table table' : Table}

/-- What a statement makes of the rows of its name. -/
def rowsAfter : Statement → List Row → List Row
  | .create name max, rows => if rows = [] then [⟨name, 0, max⟩] else rows
  | .inc counter, rows => rows.map (Row.settled counter.name 1)
  | .dec counter, rows => rows.map (Row.settled counter.name (-1))
  | .get _, rows => rows
  | .deleteCounter _, _ => []

theorem rowsOf_executed {statement : Statement}
    (unique : (rowsOf statement.name table).length ≤ 1) :
    rowsOf statement.name (executed table statement) =
      rowsAfter statement (rowsOf statement.name table) := by
  cases statement with
  | create name max => exact rowsOf_create max
  | inc counter => exact rowsOf_update unique
  | dec counter => exact rowsOf_update unique
  | get counter => rfl
  | deleteCounter counter => exact rowsOf_delete counter

theorem rowsOf_executed_other {statement : Statement} (keyed : Keyed table)
    (differ : name ≠ statement.name) :
    rowsOf name (executed table statement) = rowsOf name table :=
  rowsOf_execute_other (keyed statement.name) differ

theorem keyed_executed (keyed : Keyed table) (statement : Statement) :
    Keyed (executed table statement) := by
  intro name
  by_cases own : name = statement.name
  · subst own
    have unique := keyed statement.name
    rw [rowsOf_executed unique]
    cases statement with
    | create name max =>
        simp only [rowsAfter]
        split_ifs
        · exact Nat.le_refl 1
        · exact unique
    | inc counter => simpa only [rowsAfter, List.length_map] using unique
    | dec counter => simpa only [rowsAfter, List.length_map] using unique
    | get counter => exact unique
    | deleteCounter counter => exact Nat.zero_le 1
  · rw [rowsOf_executed_other keyed own]
    exact keyed name

/-- A statement elsewhere does the same to tables that agree elsewhere. -/
theorem executed_alike {statement : Statement} (keyed : Keyed table) (keyed' : Keyed table')
    (alike : ∀ name ≠ testCounter, rowsOf name table = rowsOf name table')
    (other : statement.name ≠ testCounter) (differ : name ≠ testCounter) :
    rowsOf name (executed table statement) = rowsOf name (executed table' statement) := by
  by_cases own : name = statement.name
  · subst own
    rw [rowsOf_executed (keyed statement.name), rowsOf_executed (keyed' statement.name),
      alike statement.name other]
  · rw [rowsOf_executed_other keyed own, rowsOf_executed_other keyed' own]
    exact alike name differ

/-- The statement of a method, executed on the table. -/
def methodOf (counter : PGCounter) : Op → Statement
  | .Inc => .inc counter
  | .Dec => .dec counter
  | .Get => .get counter

theorem methodOf_name (counter : PGCounter) (op : Op) :
    (methodOf counter op).name = counter.name := by
  cases op <;> rfl

theorem machine_executes (counter : PGCounter) (table : Table) (op : Op) :
    (Pg.machine counter table op).2 = executed table (methodOf counter op) := by
  cases op with
  | Inc =>
      simp only [Pg.machine, methodOf, executed, Statement.execute]
      cases counter.inc table <;> rfl
  | Dec =>
      simp only [Pg.machine, methodOf, executed, Statement.execute]
      cases counter.dec table <;> rfl
  | Get =>
      simp only [Pg.machine, methodOf, executed, Statement.execute]
      cases counter.get table <;> rfl

theorem rowsOf_deleted (differ : name ≠ testCounter) :
    rowsOf name (deleteTestCounter table) = rowsOf name table :=
  rowsOf_delete_other ⟨testCounter, 3⟩ differ

end Tables

section Sessions

variable {useMemCounter : Bool} {table : Table} {trace : List Event} {adapter : CounterModelAdapter}

/-- The counter of a session shows a value of the specification. -/
def Shows (table : Table) (value : Int) : Implementation → Prop
  | .mem counter => counter.limit = 3 ∧ counter.value = value ∧ WithinRange 3 value
  | .pg counter => counter.name = testCounter ∧ PgShows counter 3 table value

/-- The table is keyed and agrees elsewhere with one without sessions; the counter of the
newest session is what its actions made it. -/
structure Kept (table : Table) (trace : List Event) (adapter : CounterModelAdapter) : Prop where
  keyed : Keyed adapter.table
  alike : ∀ name ≠ testCounter, rowsOf name adapter.table =
    rowsOf name (withoutSessions table trace)
  shows : ∀ counter ∈ adapter.counter,
    Shows adapter.table (after (perform 3) 0 (actionsSince trace)) counter

theorem keyed_withoutSessions (keyed : Keyed table) (trace : List Event) :
    Keyed (withoutSessions table trace) := by
  induction trace with
  | nil => exact keyed
  | cons event trace ih =>
      cases event with
      | elsewhere statement => exact keyed_executed ih statement
      | _ => exact ih

/-- A statement elsewhere does not change what a counter shows. -/
theorem Shows.elsewhere {value : Int} {counter : Implementation} {table' : Table}
    (shows : Shows table value counter)
    (same : rowsOf testCounter table' = rowsOf testCounter table) :
    Shows table' value counter := by
  cases counter with
  | mem counter => exact shows
  | pg counter =>
      obtain ⟨own, within, row, found, max, value⟩ := shows
      refine ⟨own, within, row, ?_, max, value⟩
      rw [own, same, ← own]
      exact found

theorem mem_action {value : Int} {counter : MemCounter} (op : Op)
    (shows : Shows table value (.mem counter)) :
    (MemCounter.machine counter op).1 = .ok (perform 3 value op).1 ∧
      Shows table (perform 3 value op).2 (.mem (MemCounter.machine counter op).2) := by
  obtain ⟨limit, rfl, within⟩ := shows
  have range : 0 ≤ counter.value ∧ counter.value < 3 + 1 := within
  refine ⟨?_, ?_, ?_, perform_within (by decide) within op⟩
  · cases op <;> rfl
  · cases op with
    | Get => exact limit
    | Inc =>
        simp only [MemCounter.machine, MemCounter.inc]
        split <;> exact limit
    | Dec =>
        simp only [MemCounter.machine, MemCounter.dec]
        split <;> exact limit
  · cases op with
    | Get => rfl
    | Inc =>
        simp only [MemCounter.machine, MemCounter.inc, perform, limit]
        split_ifs
        · simp only
          omega
        · omega
    | Dec =>
        simp only [MemCounter.machine, MemCounter.dec, perform]
        split_ifs
        · simp only
          omega
        · omega

theorem pg_action {value : Int} {counter : PGCounter} (op : Op)
    (shows : Shows table value (.pg counter)) :
    (Pg.machine counter table op).1 = .ok (perform 3 value op).1 ∧
      Shows (Pg.machine counter table op).2 (perform 3 value op).2 (.pg counter) := by
  obtain ⟨own, shows⟩ := shows
  have within : WithinRange 3 value := shows.within
  have room : inRoom value op := by
    rintro ⟨-, last⟩
    have high := within.2
    omega
  have positive : 0 ≤ (3 : Int32).toInt := by decide
  obtain ⟨answer, next⟩ := shows.step positive op room
  exact ⟨answer, own, next⟩

theorem Kept.init (kept : Kept table trace adapter) :
    Kept table (.init :: trace) adapter.init := by
  unfold CounterModelAdapter.init
  split_ifs with flag
  · refine ⟨kept.keyed, kept.alike, ?_⟩
    rintro counter ⟨⟩
    exact ⟨rfl, rfl, within_init (by decide)⟩
  · have deleted : Keyed (deleteTestCounter adapter.table) :=
      keyed_executed kept.keyed (.deleteCounter ⟨testCounter, 3⟩)
    have fresh : rowsOf testCounter (deleteTestCounter adapter.table) = [] :=
      rowsOf_delete ⟨testCounter, 3⟩
    refine ⟨keyed_executed deleted (.create testCounter 3), ?_, ?_⟩
    · intro name differ
      have created : rowsOf name (PGCounter.create (deleteTestCounter adapter.table)
          testCounter 3).2 = rowsOf name (deleteTestCounter adapter.table) :=
        rowsOf_create_other 3 differ
      exact created.trans ((rowsOf_deleted differ).trans (kept.alike name differ))
    · rintro counter ⟨⟩
      exact ⟨rfl, pg_start (by decide) fresh⟩

theorem Kept.action (kept : Kept table trace adapter) (op : Op) {counter : Implementation}
    (made : adapter.counter = some counter) :
    (adapter.action op counter).1 =
      .ok (perform 3 (after (perform 3) 0 (actionsSince trace)) op).1 ∧
    Kept table (.action op (adapter.action op counter).1 :: trace)
      (adapter.action op counter).2 := by
  have shows := kept.shows counter made
  have grown : after (perform 3) 0 (actionsSince trace ++ [op]) =
      (perform 3 (after (perform 3) 0 (actionsSince trace)) op).2 := after_append _ _ _ _
  cases counter with
  | mem counter =>
      obtain ⟨answer, next⟩ := mem_action op shows
      refine ⟨answer, kept.keyed, kept.alike, ?_⟩
      rintro _ ⟨⟩
      rw [actionsSince, grown]
      exact next
  | pg counter =>
      obtain ⟨answer, next⟩ := pg_action op shows
      refine ⟨answer, ?_, ?_, ?_⟩
      · show Keyed (Pg.machine counter adapter.table op).2
        rw [machine_executes]
        exact keyed_executed kept.keyed _
      · intro name differ
        show rowsOf name (Pg.machine counter adapter.table op).2 = _
        have own : name ≠ (methodOf counter op).name := by
          rw [methodOf_name, shows.1]
          exact differ
        rw [machine_executes, rowsOf_executed_other kept.keyed own]
        exact kept.alike name differ
      · intro found member
        obtain rfl : Implementation.pg counter = found := by
          rw [← Option.some_inj, ← made]
          exact member
        rw [actionsSince, grown]
        exact next

theorem Kept.elsewhere (keyed : Keyed table) (kept : Kept table trace adapter)
    {statement : Statement} (other : statement.name ≠ testCounter) :
    Kept table (.elsewhere statement :: trace)
      { adapter with table := executed adapter.table statement } := by
  refine ⟨keyed_executed kept.keyed statement, ?_, ?_⟩
  · intro name differ
    exact executed_alike kept.keyed (keyed_withoutSessions keyed trace) kept.alike other differ
  · intro counter made
    exact (kept.shows counter made).elsewhere (rowsOf_executed_other kept.keyed (Ne.symm other))

theorem Kept.cleanup (kept : Kept table trace adapter) :
    Kept table (.cleanup :: trace) adapter.cleanup := by
  unfold CounterModelAdapter.cleanup
  split
  · refine ⟨keyed_executed kept.keyed (.deleteCounter ⟨testCounter, 3⟩), ?_, ?_⟩
    · intro name differ
      exact (rowsOf_deleted differ).trans (kept.alike name differ)
    · intro counter made
      cases made
  · exact ⟨kept.keyed, kept.alike, kept.shows⟩

theorem kept_step (keyed : Keyed table) {adapter' : CounterModelAdapter} {event : Event}
    (kept : Kept table trace adapter) (taken : Step adapter event adapter') :
    Kept table (event :: trace) adapter' := by
  cases taken with
  | init => exact kept.init
  | action op made => exact (kept.action op made).2
  | elsewhere statement other => exact kept.elsewhere keyed other
  | cleanup => exact kept.cleanup

theorem kept_run (keyed : Keyed table)
    (run : Run (sessions useMemCounter table) anyStep trace adapter) :
    Kept table trace adapter := by
  refine run.invariant (fun trace adapter => Kept table trace adapter) ?_ ?_
  · rintro _ rfl
    refine ⟨keyed, fun _ _ => rfl, ?_⟩
    intro counter made
    cases made
  · intro trace adapter event adapter' _ kept _ taken
    exact kept_step keyed kept taken

/-- Whatever a table held before, and whatever is executed on its other counters in
between, each session of the adapter, in memory or on the table, answers as the
specification does from its `Init`, and no session changes a row of another counter. -/
theorem sessions_as_specified (keyed : Keyed table)
    (run : Run (sessions useMemCounter table) anyStep trace adapter) :
    (∀ op answer past, .action op answer :: past <:+ trace →
      answer = .ok (perform 3 (after (perform 3) 0 (actionsSince past)) op).1) ∧
    ∀ name ≠ testCounter, rowsOf name adapter.table =
      rowsOf name (withoutSessions table trace) := by
  refine ⟨?_, (kept_run keyed run).alike⟩
  intro op answer past earlier
  obtain ⟨before, _, upto, -, taken⟩ := run.emitted earlier
  cases taken with
  | action _ made => exact ((kept_run keyed upto).action op made).1

/-- A leftover row at its limit, and a counter of another test beside it. -/
def leftovers : Table := [⟨testCounter, 3, 3⟩, ⟨"counter-1", 1, 3⟩]

theorem leftovers_keyed : Keyed leftovers := by
  intro name
  by_cases mine : name = testCounter
  · subst mine
    decide
  · have absent : rowsOf name [⟨testCounter, 3, 3⟩] = [] := by
      simp [rowsOf, Ne.symm mine]
    have shorter : rowsOf name leftovers = rowsOf name [⟨"counter-1", 1, 3⟩] := by
      rw [leftovers, rowsOf, List.filter_cons_of_neg (by simpa using Ne.symm mine), rowsOf]
    rw [shorter]
    exact List.length_filter_le _ _

theorem sessions_as_specified_leftovers :
    ∃ trace adapter, Run (sessions false leftovers) anyStep trace adapter ∧
      (∀ op answer past, .action op answer :: past <:+ trace →
        answer = .ok (perform 3 (after (perform 3) 0 (actionsSince past)) op).1) ∧
      actionsSince trace = [.Inc, .Get] ∧
      rowsOf "counter-1" adapter.table = [⟨"counter-1", 2, 3⟩] := by
  have run := ((((Run.start rfl : Run (sessions false leftovers) anyStep [] _).step
    (.init _) trivial).step (.action _ .Inc rfl) trivial).step
    (.elsewhere _ (.inc ⟨"counter-1", 3⟩) (by decide)) trivial).step (.action _ .Get rfl) trivial
  obtain ⟨answers, others⟩ := sessions_as_specified leftovers_keyed run
  refine ⟨_, _, run, answers, rfl, ?_⟩
  rw [others "counter-1" (by decide)]
  decide

end Sessions

end FizzbeeMbt.Counter.Ts
