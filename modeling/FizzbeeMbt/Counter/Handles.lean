import FizzbeeMbt.Lib.Runs
import FizzbeeMbt.Counter.Spec
import FizzbeeMbt.Counter.PgTable

/-! Any number of handles on the table `counters`, whose statements interleave. -/

namespace FizzbeeMbt.Counter

open FizzbeeMbt.Replay FizzbeeMbt.Runs

/-- A statement with the handle that executes it. -/
inductive Statement where
  | create (name : String) (max : Int32)
  | inc (counter : PGCounter)
  | dec (counter : PGCounter)
  | get (counter : PGCounter)
  | deleteCounter (counter : PGCounter)
  deriving DecidableEq, Repr

/-- The table, and the handles that were created on it. -/
structure Database where
  table : Table
  handles : List PGCounter
  deriving DecidableEq, Repr

def Database.empty : Database := ⟨[], []⟩

namespace Statement

def handle : Statement → Option PGCounter
  | .create _ _ => none
  | .inc counter => some counter
  | .dec counter => some counter
  | .get counter => some counter
  | .deleteCounter counter => some counter

def name : Statement → String
  | .create name _ => name
  | .inc counter => counter.name
  | .dec counter => counter.name
  | .get counter => counter.name
  | .deleteCounter counter => counter.name

def execute (db : Database) : Statement → Database
  | .create name max =>
      ⟨(PGCounter.create db.table name max).2,
        (PGCounter.create db.table name max).1 :: db.handles⟩
  | .inc counter => { db with table := kept db.table (counter.inc db.table) }
  | .dec counter => { db with table := kept db.table (counter.dec db.table) }
  | .get _ => db
  | .deleteCounter counter => { db with table := counter.deleteCounter db.table }

end Statement

inductive NoHandle where
  | noHandle
  deriving DecidableEq, Repr

/-- A handle executes statements once it was created. -/
def next (db : Database) (statement : Statement) : Except NoHandle Database :=
  if ∀ counter ∈ statement.handle, counter ∈ db.handles then .ok (statement.execute db)
  else .error .noHandle

def statements : System Database Statement := .ofNext Database.empty next

section History

variable (name : String)

def Statement.deletes : Statement → Bool
  | .deleteCounter counter => counter.name = name
  | _ => false

def Statement.creates : Statement → Option Int32
  | .create name' max => if name' = name then some max else none
  | _ => none

def Statement.applies : Statement → Option Op
  | .inc counter => if counter.name = name then some .Inc else none
  | .dec counter => if counter.name = name then some .Dec else none
  | _ => none

/-- The max of the first create of a name since its last deletion. -/
def firstMax : List Statement → Option Int32
  | [] => none
  | statement :: earlier =>
      if statement.deletes name then none else (firstMax earlier).or (statement.creates name)

/-- The increments and decrements of a name since that create, in execution order. -/
def opsSince : List Statement → List Op
  | [] => []
  | statement :: earlier =>
      if statement.deletes name ∨ firstMax name earlier = none then []
      else opsSince earlier ++ (statement.applies name).toList

variable {name} {statement : Statement}

theorem silent_other (differ : statement.name ≠ name) :
    statement.deletes name = false ∧ statement.creates name = none ∧
      statement.applies name = none := by
  cases statement with
  | create name' max => exact ⟨rfl, if_neg differ, rfl⟩
  | inc counter => exact ⟨rfl, rfl, if_neg differ⟩
  | dec counter => exact ⟨rfl, rfl, if_neg differ⟩
  | get counter => exact ⟨rfl, rfl, rfl⟩
  | deleteCounter counter => exact ⟨decide_eq_false differ, rfl, rfl⟩

theorem firstMax_other (differ : statement.name ≠ name) (trace : List Statement) :
    firstMax name (statement :: trace) = firstMax name trace := by
  obtain ⟨keeps, silent, -⟩ := silent_other differ
  simp [firstMax, keeps, silent]

theorem opsSince_other (differ : statement.name ≠ name) (trace : List Statement)
    (created : firstMax name trace ≠ none) :
    opsSince name (statement :: trace) = opsSince name trace := by
  obtain ⟨keeps, -, silent⟩ := silent_other differ
  simp [opsSince, keeps, silent, created]

end History

/-- The rows of a name against its history. -/
def Held (name : String) (trace : List Statement) (rows : List Row) : Prop :=
  match firstMax name trace with
  | none => rows = []
  | some max => ∃ value, rows = [⟨name, value, max⟩] ∧
      (0 ≤ max.toInt → WithinRange max.toInt value.toInt ∧
        value.toInt = after (perform max.toInt) 0 (opsSince name trace))

section Steps

variable {name : String} {trace : List Statement} {rows : List Row} {db : Database}

theorem Held.unique (held : Held name trace rows) : rows.length ≤ 1 := by
  unfold Held at held
  split at held
  · rw [held]
    exact Nat.zero_le 1
  · obtain ⟨value, rfl, -⟩ := held
    exact Nat.le_refl 1

/-- A statement that is no part of the history of a name. -/
theorem Held.silent (held : Held name trace rows) {statement : Statement}
    (same : firstMax name (statement :: trace) = firstMax name trace)
    (ops : firstMax name trace ≠ none → opsSince name (statement :: trace) = opsSince name trace) :
    Held name (statement :: trace) rows := by
  unfold Held at held ⊢
  rw [same]
  split at held
  · exact held
  · next max found =>
      rw [ops (by simp [found])]
      exact held

theorem Held.other (held : Held name trace rows) {statement : Statement}
    (differ : statement.name ≠ name) : Held name (statement :: trace) rows :=
  held.silent (firstMax_other differ trace) (opsSince_other differ trace)

/-- An update moves the value like the specification's action. -/
theorem Held.update (held : Held name trace rows) {delta : Int32} {op : Op}
    {statement : Statement} (keeps : statement.deletes name = false)
    (silent : statement.creates name = none) (applies : statement.applies name = some op)
    (acts : ∀ row : Row, row.name = name → row.bounded → (row.settled name delta).value.toInt =
      (perform row.max.toInt row.value.toInt op).2) :
    Held name (statement :: trace) (rows.map (Row.settled name delta)) := by
  have first : firstMax name (statement :: trace) = firstMax name trace := by
    simp [firstMax, keeps, silent]
  unfold Held at held ⊢
  rw [first]
  split at held
  · rw [held]
    rfl
  · next max found =>
      obtain ⟨value, rfl, counted⟩ := held
      obtain ⟨own, same⟩ : (Row.settled name delta ⟨name, value, max⟩).name = _ ∧ _ :=
        settled_identity ⟨name, value, max⟩
      refine ⟨(Row.settled name delta ⟨name, value, max⟩).value, ?_, ?_⟩
      · exact congrArg (fun row => [row]) (Row.ext own rfl same)
      · intro positive
        obtain ⟨within, counts⟩ := counted positive
        have moved := acts ⟨name, value, max⟩ rfl ⟨within.1, Int.le_of_lt_add_one within.2⟩
        have grown : opsSince name (statement :: trace) = opsSince name trace ++ [op] := by
          simp [opsSince, keeps, found, applies]
        rw [moved, grown, after_append, ← counts]
        exact ⟨perform_within positive within op, rfl⟩

theorem Held.create (held : Held name trace rows) (max : Int32) :
    Held name (.create name max :: trace) (if rows = [] then [⟨name, 0, max⟩] else rows) := by
  have first : firstMax name (.create name max :: trace) = some ((firstMax name trace).getD max) := by
    simp only [firstMax, Statement.deletes, Statement.creates]
    cases firstMax name trace <;> simp
  unfold Held at held ⊢
  rw [first]
  split at held
  · next absent =>
      rw [if_pos held, absent]
      refine ⟨0, rfl, fun positive => ⟨within_init positive, ?_⟩⟩
      simp [opsSince, absent, after]
  · next max' found =>
      obtain ⟨value, rfl, counted⟩ := held
      rw [if_neg (List.cons_ne_nil _ _), found]
      refine ⟨value, rfl, ?_⟩
      have same : opsSince name (.create name max :: trace) = opsSince name trace := by
        simp [opsSince, Statement.deletes, Statement.applies, found]
      rw [same]
      exact counted

theorem Held.get (held : Held name trace rows) {counter : PGCounter} :
    Held name (.get counter :: trace) rows := by
  apply held.silent
  · simp [firstMax, Statement.deletes, Statement.creates]
  · intro created
    simp [opsSince, Statement.deletes, Statement.applies, created]

theorem held_deleted (counter : PGCounter) :
    Held counter.name (.deleteCounter counter :: trace) [] := by
  have deletes : Statement.deletes counter.name (.deleteCounter counter) = true :=
    decide_eq_true rfl
  simp [Held, firstMax, deletes]

/-- A statement keeps the rows of every other name. -/
theorem rowsOf_execute_other {statement : Statement}
    (unique : (rowsOf statement.name db.table).length ≤ 1) {other : String}
    (differ : other ≠ statement.name) :
    rowsOf other (statement.execute db).table = rowsOf other db.table := by
  cases statement with
  | create name max => exact rowsOf_create_other max differ
  | inc counter => exact rowsOf_update_other unique differ
  | dec counter => exact rowsOf_update_other unique differ
  | get counter => rfl
  | deleteCounter counter => exact rowsOf_delete_other counter differ

theorem held_execute (held : ∀ name, Held name trace (rowsOf name db.table))
    (statement : Statement) (name : String) :
    Held name (statement :: trace) (rowsOf name (statement.execute db).table) := by
  by_cases own : statement.name = name
  · subst own
    have mine := held statement.name
    cases statement with
    | create name max =>
        have rows : rowsOf name ((Statement.create name max).execute db).table = _ :=
          rowsOf_create max
        rw [Statement.name, rows]
        exact mine.create max
    | inc counter =>
        have rows : rowsOf counter.name ((Statement.inc counter).execute db).table = _ :=
          rowsOf_update mine.unique
        rw [Statement.name, rows]
        exact mine.update rfl rfl (if_pos rfl) fun row own bounded => settled_inc own bounded
    | dec counter =>
        have rows : rowsOf counter.name ((Statement.dec counter).execute db).table = _ :=
          rowsOf_update mine.unique
        rw [Statement.name, rows]
        exact mine.update rfl rfl (if_pos rfl) fun row own bounded => settled_dec own bounded
    | get counter => exact mine.get
    | deleteCounter counter =>
        have rows : rowsOf counter.name ((Statement.deleteCounter counter).execute db).table = [] :=
          rowsOf_delete counter
        rw [Statement.name, rows]
        exact held_deleted counter
  · rw [rowsOf_execute_other (held statement.name).unique (Ne.symm own)]
    exact (held name).other own

end Steps

section Runs

variable {trace : List Statement} {db : Database}

theorem next_executes {db' : Database} {statement : Statement}
    (done : next db statement = .ok db') : db' = statement.execute db := by
  unfold next at done
  split at done
  · exact (Except.ok.inj done).symm
  · cases done

theorem held_run (run : Run statements anyStep trace db) :
    ∀ name, Held name trace (rowsOf name db.table) := by
  refine run.invariant (fun trace db => ∀ name, Held name trace (rowsOf name db.table)) ?_ ?_
  · rintro _ rfl name
    exact rfl
  · intro trace db statement db' _ held _ taken
    rw [next_executes taken]
    exact held_execute held statement

/-- Each name has at most one row, which is what the statements on that name made it. -/
theorem pg_rows (run : Run statements anyStep trace db) :
    (∀ name, (rowsOf name db.table).length ≤ 1 ∧
      (rowsOf name db.table = [] ↔ firstMax name trace = none)) ∧
    (∀ row ∈ db.table, firstMax row.name trace = some row.max ∧
      (0 ≤ row.max.toInt → WithinRange row.max.toInt row.value.toInt ∧
        row.value.toInt = after (perform row.max.toInt) 0 (opsSince row.name trace))) ∧
    ∀ statement db', next db statement = .ok db' → ∀ name ≠ statement.name,
      rowsOf name db'.table = rowsOf name db.table := by
  have held := held_run run
  refine ⟨fun name => ⟨(held name).unique, ?_⟩, ?_, ?_⟩
  · have rows := held name
    unfold Held at rows
    split at rows
    · next absent => exact ⟨fun _ => absent, fun _ => rows⟩
    · next max found =>
        obtain ⟨value, single, -⟩ := rows
        rw [single, found]
        simp
  · intro row member
    have mine : row ∈ rowsOf row.name db.table := List.mem_filter.mpr ⟨member, by simp⟩
    have rows := held row.name
    unfold Held at rows
    split at rows
    · rw [rows] at mine
      cases mine
    · next max found =>
        obtain ⟨value, single, counted⟩ := rows
        rw [single] at mine
        obtain same := List.mem_singleton.mp mine
        have max_eq : row.max = max := congrArg Row.max same
        have value_eq : row.value = value := congrArg Row.value same
        rw [found, max_eq, value_eq]
        exact ⟨rfl, counted⟩
  · intro statement db' done name differ
    rw [next_executes done]
    exact rowsOf_execute_other (held statement.name).unique differ

/-- Two handles share a name and disagree on its max; a third counter is deleted. -/
def sharedName : List Statement :=
  [.deleteCounter ⟨"b", 7⟩, .dec ⟨"a", 5⟩, .inc ⟨"a", 5⟩, .inc ⟨"a", 1⟩, .inc ⟨"b", 7⟩,
    .create "a" 5, .inc ⟨"a", 1⟩, .create "b" 7, .create "a" 1]

theorem pg_rows_shared_name :
    ∃ db : Database, reached Database.empty next sharedName = .ok db ∧
      db.table = [⟨"a", 0, 1⟩] ∧ opsSince "a" sharedName = [.Inc, .Inc, .Inc, .Dec] ∧
      (rowsOf "b" db.table = [] ↔ firstMax "b" sharedName = none) := by
  refine ⟨_, rfl, by decide, by decide, ?_⟩
  exact ((pg_rows (run_of_reached
    (rfl : reached Database.empty next sharedName = .ok _))).1 "b").2

end Runs

end FizzbeeMbt.Counter
