import FizzbeeMbt.Lib.Words

/-! The table `counters` and the statements of `PGCounter`, each executed atomically. -/

namespace FizzbeeMbt.Counter

open FizzbeeMbt.Words

/-- `name TEXT PRIMARY KEY, value INTEGER NOT NULL, max INTEGER NOT NULL`. -/
@[ext]
structure Row where
  name : String
  value : Int32
  max : Int32
  deriving DecidableEq, Repr

abbrev Table := List Row

inductive CounterError where
  | integerOutOfRange
  | notFound (name : String)
  deriving DecidableEq, Repr

/-- `value + $1` on INTEGER columns, which does not wrap. -/
def Row.sum (row : Row) (delta : Int32) : Except CounterError Int32 :=
  if -2 ^ 31 ≤ row.value.toInt + delta.toInt ∧ row.value.toInt + delta.toInt < 2 ^ 31 then
    .ok (row.value + delta)
  else .error .integerOutOfRange

/-- `WHERE name = $2 AND value + $1 >= 0 AND value + $1 <= max`. -/
def Row.selected (name : String) (delta : Int32) (row : Row) : Except CounterError Bool :=
  if row.name = name then
    match row.sum delta with
    | .error e => .error e
    | .ok sum => .ok (decide (0 ≤ sum) && decide (sum ≤ row.max))
  else .ok false

/-- `SET value = value + $1` in the selected rows. -/
def Row.update (name : String) (delta : Int32) (row : Row) : Except CounterError Row :=
  match row.selected name delta with
  | .error e => .error e
  | .ok false => .ok row
  | .ok true =>
      match row.sum delta with
      | .error e => .error e
      | .ok sum => .ok { row with value := sum }

/-- What is in a table after a statement: a failing one changes no row. -/
def kept (table : Table) : Except CounterError Table → Table
  | .ok table' => table'
  | .error _ => table

/-- The row after an update that may fail. -/
def Row.settled (name : String) (delta : Int32) (row : Row) : Row :=
  match row.update name delta with
  | .ok row' => row'
  | .error _ => row

/-- The rows of `SELECT … WHERE name = $1`. -/
def rowsOf (name : String) (table : Table) : List Row := table.filter fun row => row.name = name

structure PGCounter where
  name : String
  max : Int32
  deriving DecidableEq, Repr

namespace PGCounter

/-- `INSERT … ON CONFLICT (name) DO NOTHING`, and the handle. -/
def create (table : Table) (name : String) (max : Int32) : PGCounter × Table :=
  (⟨name, max⟩, if rowsOf name table = [] then table ++ [⟨name, 0, max⟩] else table)

def update (counter : PGCounter) (table : Table) (delta : Int32) : Except CounterError Table :=
  table.mapM (Row.update counter.name delta)

def inc (counter : PGCounter) (table : Table) : Except CounterError Table :=
  counter.update table 1

def dec (counter : PGCounter) (table : Table) : Except CounterError Table :=
  counter.update table (-1)

def get (counter : PGCounter) (table : Table) : Except CounterError Int32 :=
  match rowsOf counter.name table with
  | [] => .error (.notFound counter.name)
  | row :: _ => .ok row.value

def deleteCounter (counter : PGCounter) (table : Table) : Table :=
  table.filter fun row => row.name ≠ counter.name

end PGCounter

section Rows

variable {name other : String} {table table' : Table}

theorem rowsOf_names {row : Row} (member : row ∈ rowsOf name table) : row.name = name := by
  simpa using (List.mem_filter.mp member).2

theorem rowsOf_create (max : Int32) :
    rowsOf name (PGCounter.create table name max).2 =
      if rowsOf name table = [] then [⟨name, 0, max⟩] else rowsOf name table := by
  unfold PGCounter.create
  by_cases fresh : rowsOf name table = []
  · have grown : rowsOf name (table ++ [⟨name, 0, max⟩]) =
        rowsOf name table ++ [⟨name, 0, max⟩] := by
      simp [rowsOf]
    simp only [if_pos fresh]
    rw [grown, fresh, List.nil_append]
  · simp only [if_neg fresh]

theorem rowsOf_create_other (max : Int32) (differ : other ≠ name) :
    rowsOf other (PGCounter.create table name max).2 = rowsOf other table := by
  unfold PGCounter.create
  by_cases fresh : rowsOf name table = []
  · simp only [if_pos fresh]
    simp [rowsOf, Ne.symm differ]
  · simp only [if_neg fresh]

theorem rowsOf_delete (counter : PGCounter) :
    rowsOf counter.name (counter.deleteCounter table) = [] := by
  simp [rowsOf, PGCounter.deleteCounter, List.filter_filter]

theorem rowsOf_delete_other (counter : PGCounter) (differ : other ≠ counter.name) :
    rowsOf other (counter.deleteCounter table) = rowsOf other table := by
  unfold rowsOf PGCounter.deleteCounter
  rw [List.filter_filter]
  apply List.filter_congr
  intro row _
  by_cases same : row.name = other
  · simp [same, differ]
  · simp [same]

end Rows

section Updates

variable {name : String} {delta : Int32} {row row' : Row} {table : Table} {counter : PGCounter}

theorem update_other (differ : row.name ≠ name) : row.update name delta = .ok row := by
  simp [Row.update, Row.selected, differ]

theorem update_own (own : row.name = name) {sum : Int32} (added : row.sum delta = .ok sum) :
    row.update name delta =
      .ok (if 0 ≤ sum ∧ sum ≤ row.max then { row with value := sum } else row) := by
  unfold Row.update Row.selected
  rw [if_pos own, added]
  by_cases bounded : 0 ≤ sum ∧ sum ≤ row.max
  · simp [bounded]
  · rw [if_neg bounded]
    have rejected : (decide (0 ≤ sum) && decide (sum ≤ row.max)) = false := by
      simpa using bounded
    simp only [rejected]

theorem update_overflow (own : row.name = name) {e : CounterError}
    (failed : row.sum delta = .error e) : row.update name delta = .error e := by
  simp only [Row.update, Row.selected, if_pos own, failed]

theorem update_identity (done : row.update name delta = .ok row') :
    row'.name = row.name ∧ row'.max = row.max := by
  unfold Row.update at done
  split at done
  · cases done
  · obtain rfl := Except.ok.inj done
    exact ⟨rfl, rfl⟩
  · split at done
    · cases done
    · obtain rfl := Except.ok.inj done
      exact ⟨rfl, rfl⟩

theorem mapM_unchanged {f : Row → Except CounterError Row}
    (same : ∀ row ∈ table, f row = .ok row) :
    table.mapM f = .ok table := by
  induction table with
  | nil => rfl
  | cons row rest ih =>
      rw [List.mapM_cons, same row List.mem_cons_self,
        ih fun row' member => same row' (List.mem_cons_of_mem row member)]
      rfl

theorem rowsOf_absent (absent : rowsOf name table = []) : ∀ row ∈ table, row.name ≠ name := by
  intro row member same
  have found : row ∈ rowsOf name table := List.mem_filter.mpr ⟨member, by simp [same]⟩
  rw [absent] at found
  cases found

theorem update_absent (absent : rowsOf counter.name table = []) :
    counter.update table delta = .ok table :=
  mapM_unchanged fun row member => update_other (rowsOf_absent absent row member)

/-- A table with one row of a name, as that row between the others. -/
theorem rowsOf_single (single : rowsOf name table = [row]) :
    ∃ above below, table = above ++ row :: below ∧ row.name = name ∧
      (∀ r ∈ above, r.name ≠ name) ∧ ∀ r ∈ below, r.name ≠ name := by
  obtain ⟨above, below, rfl, before, own, after⟩ := List.filter_eq_cons_iff.mp single
  refine ⟨above, below, rfl, by simpa using own, ?_, rowsOf_absent after⟩
  intro r member
  simpa using before r member

theorem update_single {above below : Table} (before : ∀ r ∈ above, r.name ≠ counter.name)
    (after : ∀ r ∈ below, r.name ≠ counter.name) :
    counter.update (above ++ row :: below) delta =
      match row.update counter.name delta with
      | .error e => .error e
      | .ok row' => .ok (above ++ row' :: below) := by
  have same (part : Table) (others : ∀ r ∈ part, r.name ≠ counter.name) :
      part.mapM (Row.update counter.name delta) = .ok part :=
    mapM_unchanged fun r member => update_other (others r member)
  unfold PGCounter.update
  rw [List.mapM_append, List.mapM_cons, same above before, same below after]
  cases row.update counter.name delta <;> rfl

theorem rowsOf_between {above below : Table} (before : ∀ r ∈ above, r.name ≠ name)
    (after : ∀ r ∈ below, r.name ≠ name) (own : row.name = name) :
    rowsOf name (above ++ row :: below) = [row] := by
  have none (part : Table) (others : ∀ r ∈ part, r.name ≠ name) : rowsOf name part = [] := by
    apply List.filter_eq_nil_iff.mpr
    intro r member
    simpa using others r member
  have split : rowsOf name (above ++ row :: below) =
      rowsOf name above ++ rowsOf name [row] ++ rowsOf name below := by
    simp [rowsOf, List.filter_cons]
    split <;> simp
  rw [split, none above before, none below after]
  simp [rowsOf, own]

theorem rowsOf_around {other : String} {above below : Table} (differ : row.name ≠ other) :
    rowsOf other (above ++ row :: below) = rowsOf other above ++ rowsOf other below := by
  simp [rowsOf, differ]

theorem settled_identity (row : Row) :
    (row.settled name delta).name = row.name ∧ (row.settled name delta).max = row.max := by
  unfold Row.settled
  cases updated : row.update name delta with
  | error e => exact ⟨rfl, rfl⟩
  | ok row' => exact update_identity updated

theorem kept_single {above below : Table} (before : ∀ r ∈ above, r.name ≠ counter.name)
    (after : ∀ r ∈ below, r.name ≠ counter.name) :
    kept (above ++ row :: below) (counter.update (above ++ row :: below) delta) =
      above ++ row.settled counter.name delta :: below := by
  rw [update_single before after]
  unfold Row.settled
  cases row.update counter.name delta <;> rfl

theorem update_found (found : rowsOf counter.name table = [row])
    (updated : row.update counter.name delta = .ok row') :
    ∃ table', counter.update table delta = .ok table' ∧ rowsOf counter.name table' = [row'] := by
  obtain ⟨above, below, rfl, own, before, after⟩ := rowsOf_single found
  refine ⟨above ++ row' :: below, ?_, ?_⟩
  · rw [update_single before after, updated]
  · exact rowsOf_between before after ((update_identity updated).1.trans own)

theorem update_failed (found : rowsOf counter.name table = [row]) {e : CounterError}
    (failed : row.update counter.name delta = .error e) :
    counter.update table delta = .error e := by
  obtain ⟨above, below, rfl, own, before, after⟩ := rowsOf_single found
  rw [update_single before after, failed]

theorem rowsOf_unique (unique : (rowsOf name table).length ≤ 1) :
    rowsOf name table = [] ∨ ∃ row, rowsOf name table = [row] := by
  cases found : rowsOf name table with
  | nil => exact Or.inl rfl
  | cons row rest =>
      rw [found] at unique
      have alone : rest = [] :=
        List.length_eq_zero_iff.mp (Nat.le_zero.mp (Nat.le_of_succ_le_succ unique))
      exact Or.inr ⟨row, by rw [alone]⟩

theorem rowsOf_update (unique : (rowsOf counter.name table).length ≤ 1) :
    rowsOf counter.name (kept table (counter.update table delta)) =
      (rowsOf counter.name table).map (Row.settled counter.name delta) := by
  rcases rowsOf_unique unique with absent | ⟨row, found⟩
  · rw [update_absent absent, absent]
    exact absent
  · obtain ⟨above, below, rfl, own, before, after⟩ := rowsOf_single found
    rw [kept_single before after, found]
    exact rowsOf_between before after ((settled_identity row).1.trans own)

theorem rowsOf_update_other {other : String} (unique : (rowsOf counter.name table).length ≤ 1)
    (differ : other ≠ counter.name) :
    rowsOf other (kept table (counter.update table delta)) = rowsOf other table := by
  rcases rowsOf_unique unique with absent | ⟨row, found⟩
  · rw [update_absent absent, kept]
  · obtain ⟨above, below, rfl, own, before, after⟩ := rowsOf_single found
    have elsewhere : row.name ≠ other := fun same => differ (same.symm.trans own)
    have elsewhere' : (row.settled counter.name delta).name ≠ other := by
      rw [(settled_identity row).1]
      exact elsewhere
    rw [kept_single before after, rowsOf_around elsewhere, rowsOf_around elsewhere']

end Updates

section Bounds

variable {name : String} {row : Row}

/-- The value is within the bounds that the update statements check. -/
def Row.bounded (row : Row) : Prop := 0 ≤ row.value.toInt ∧ row.value.toInt ≤ row.max.toInt

theorem sum_ok (row : Row) (delta : Int32) (low : -2 ^ 31 ≤ row.value.toInt + delta.toInt)
    (high : row.value.toInt + delta.toInt < 2 ^ 31) :
    row.sum delta = .ok (row.value + delta) ∧
      (row.value + delta).toInt = row.value.toInt + delta.toInt :=
  ⟨if_pos ⟨low, high⟩, toInt32_add _ _ low high⟩

/-- The guarded increment, below the end of INTEGER. -/
theorem update_inc (own : row.name = name) (bounded : row.bounded)
    (below : row.value.toInt < 2 ^ 31 - 1) :
    ∃ row', row.update name 1 = .ok row' ∧
      row'.value.toInt = min (row.value.toInt + 1) row.max.toInt := by
  obtain ⟨low, high⟩ := bounded
  have one : (1 : Int32).toInt = 1 := Int32.toInt_one
  obtain ⟨added, sum⟩ := sum_ok row 1 (by omega) (by omega)
  refine ⟨_, update_own own added, ?_⟩
  have zero : (0 : Int32).toInt = 0 := Int32.toInt_zero
  simp only [Int32.le_iff_toInt_le, sum, zero, one]
  split_ifs with room
  · rw [sum, one]
    omega
  · omega

theorem update_dec (own : row.name = name) (bounded : row.bounded) :
    ∃ row', row.update name (-1) = .ok row' ∧
      row'.value.toInt = max (row.value.toInt - 1) 0 := by
  obtain ⟨low, high⟩ := bounded
  have one : (-1 : Int32).toInt = -1 := by decide
  have limit := row.value.toInt_lt
  obtain ⟨added, sum⟩ := sum_ok row (-1) (by omega) (by omega)
  refine ⟨_, update_own own added, ?_⟩
  have zero : (0 : Int32).toInt = 0 := Int32.toInt_zero
  simp only [Int32.le_iff_toInt_le, sum, zero, one]
  split_ifs with room
  · rw [sum, one]
    omega
  · omega

/-- At the end of INTEGER the increment fails instead of rejecting the row. -/
theorem update_inc_overflow (own : row.name = name) (last : row.value.toInt = 2 ^ 31 - 1) :
    row.update name 1 = .error .integerOutOfRange := by
  apply update_overflow own
  apply if_neg
  have one : (1 : Int32).toInt = 1 := Int32.toInt_one
  omega

theorem settled_inc (own : row.name = name) (bounded : row.bounded) :
    (row.settled name 1).value.toInt = min (row.value.toInt + 1) row.max.toInt := by
  unfold Row.settled
  by_cases below : row.value.toInt < 2 ^ 31 - 1
  · obtain ⟨row', updated, value⟩ := update_inc own bounded below
    rw [updated]
    exact value
  · have limit := row.max.toInt_lt
    have high := bounded.2
    rw [update_inc_overflow own (by omega)]
    show row.value.toInt = _
    omega

theorem settled_dec (own : row.name = name) (bounded : row.bounded) :
    (row.settled name (-1)).value.toInt = max (row.value.toInt - 1) 0 := by
  unfold Row.settled
  obtain ⟨row', updated, value⟩ := update_dec own bounded
  rw [updated]
  exact value

end Bounds

end FizzbeeMbt.Counter
