import FizzbeeMbt.Counter.Implementations

/-! The counters against the specification: alike until an increment at 2^31 - 1. -/

namespace FizzbeeMbt.Counter

open FizzbeeMbt.Replay FizzbeeMbt.Words

variable {σ : Type}

/-- The answers of the specification, no error among them, and the value in range all along. -/
def Correct (machine : Machine σ Op Answer) (s : σ) (L : Int) (ops : List Op) : Prop :=
  replay machine s ops = (replay (perform L) 0 ops).map .ok ∧
  ∀ earlier, earlier <+: ops → ∃ value,
    (machine (after machine s earlier) .Get).1 = .ok (some value) ∧ WithinRange L value

/-- No increment of the specification's value from the last 32-bit integer. -/
def inRoom (value : Int) (op : Op) : Prop := ¬(op = .Inc ∧ value = 2 ^ 31 - 1)

def NoOverflow (L : Int) (ops : List Op) : Prop := Guarded (perform L) inRoom 0 ops

/-- A simulation in the range of the specification gives its answers. -/
theorem correct_of_simulates {machine : Machine σ Op Answer} {L : Int} (positive : 0 ≤ L)
    {related : σ → Int → Prop} {guard : Int → Op → Prop}
    (simulates : SimulatesWhile machine (perform L) .ok related guard)
    (gets : ∀ value, guard value .Get) {s : σ} (start : related s 0) {ops : List Op}
    (guarded : Guarded (perform L) guard 0 ops) : Correct machine s L ops := by
  refine ⟨simulates.replay start guarded, ?_⟩
  rintro earlier ⟨later, rfl⟩
  have past := ((guarded_append _ _ _ _ _).mp guarded).1
  exact ⟨_, simulates.answer _ _ .Get (simulates.after start past) (gets _),
    after_within positive (within_init positive) earlier⟩

/-- A counter that answers a get with its value, and nothing else, answers as specified. -/
theorem answer_of_value {machine : Machine σ Op Answer} {L : Int} {c : σ} {shown value : Int}
    (same : shown = value) (gets : (machine c .Get).1 = .ok (some shown))
    (incs : (machine c .Inc).1 = .ok none) (decs : (machine c .Dec).1 = .ok none) (op : Op) :
    (machine c op).1 = .ok (perform L value op).1 := by
  cases op with
  | Get => rw [gets, same]; rfl
  | Inc => exact incs
  | Dec => exact decs

theorem get_inRoom (value : Int) : inRoom value .Get := by
  simp [inRoom]

/-- A simulation while there is room reaches the state in which the room ends. -/
theorem overflow_reached {machine : Machine σ Op Answer} {L : Int} {related : σ → Int → Prop}
    (simulates : SimulatesWhile machine (perform L) .ok related inRoom) {s : σ}
    (start : related s 0) {ops : List Op} (overflow : ¬NoOverflow L ops) :
    ∃ earlier later, ops = earlier ++ .Inc :: later ∧
      related (after machine s earlier) (2 ^ 31 - 1) := by
  obtain ⟨earlier, op, later, same, guarded, stopped⟩ := first_unguarded _ _ overflow
  obtain ⟨rfl, last⟩ := not_not.mp stopped
  exact ⟨earlier, later, same, last ▸ simulates.after start guarded⟩

/-- The bounds of a value that 32 bits must hold. -/
theorem WithinRange.fits {L : Int32} {value : Int} (within : WithinRange L.toInt value) :
    0 ≤ value ∧ value ≤ L.toInt ∧ L.toInt < 2 ^ 31 :=
  ⟨within.1, Int.le_of_lt_add_one within.2, L.toInt_lt⟩

section Go

open Go

def goShows (L : Int) (c : MemCounter) (value : Int) : Prop :=
  c.limit.toInt = L ∧ c.value.toInt = value ∧ WithinRange L value

theorem go_simulates (L : Int32) (positive : 0 ≤ L.toInt) :
    SimulatesWhile machine (perform L.toInt) .ok (goShows L.toInt) fun _ _ => True where
  answer _ _ op shows _ := answer_of_value shows.2.1 rfl rfl rfl op
  next c value op shows _ := by
    obtain ⟨limit, same, within⟩ := shows
    obtain ⟨low, high, small⟩ := within.fits
    refine ⟨?_, ?_, perform_within positive within op⟩
    · cases op with
      | Get => exact limit
      | Inc =>
          simp only [machine, MemCounter.Inc]
          split <;> exact limit
      | Dec =>
          simp only [machine, MemCounter.Dec]
          split <;> exact limit
    · cases op with
      | Get => exact same
      | Inc =>
          simp only [machine, MemCounter.Inc, perform, Int64.lt_iff_toInt_lt]
          split_ifs with below
          · simp only [toInt64_succ c.value (by omega)]
            omega
          · omega
      | Dec =>
          have zero : (0 : Int64).toInt = 0 := Int64.toInt_zero
          simp only [machine, MemCounter.Dec, perform, Int64.lt_iff_toInt_lt, zero]
          split_ifs with above
          · simp only [toInt64_pred c.value (by omega)]
            omega
          · omega

theorem go_correct (L : Int32) (positive : 0 ≤ L.toInt) (ops : List Op) :
    Correct machine (NewMemCounter L.toInt64) L.toInt ops := by
  have start : goShows L.toInt (NewMemCounter L.toInt64) 0 :=
    ⟨Int32.toInt_toInt64 L, Int64.toInt_zero, within_init positive⟩
  exact correct_of_simulates positive (go_simulates L positive) (fun _ => trivial) start
    (guarded_of_forall _ _ (fun _ _ => trivial) _ _)

end Go

section Rust

open Rust

def rustShows (L : Int32) (c : GoodMemCounter) (value : Int) : Prop :=
  c.limit = L ∧ c.value.toInt = value ∧ WithinRange L.toInt value

/-- The closures are the specification's actions; `none` where these change nothing. -/
theorem inc_perform {L current : Int32} (within : WithinRange L.toInt current.toInt) :
    ((inc L current).getD current).toInt = (perform L.toInt current.toInt .Inc).2 := by
  obtain ⟨low, high, small⟩ := within.fits
  simp only [inc, perform, Int32.lt_iff_toInt_lt]
  split_ifs with below
  · rw [Option.getD_some, toInt32_succ current (by omega)]
    omega
  · rw [Option.getD_none]
    omega

theorem dec_perform {L current : Int32} (within : WithinRange L.toInt current.toInt) :
    ((dec current).getD current).toInt = (perform L.toInt current.toInt .Dec).2 := by
  obtain ⟨low, high, small⟩ := within.fits
  have zero : (0 : Int32).toInt = 0 := Int32.toInt_zero
  simp only [dec, perform, Int32.lt_iff_toInt_lt, zero]
  split_ifs with above
  · rw [Option.getD_some, toInt32_pred current (by omega)]
    omega
  · rw [Option.getD_none]
    omega

theorem fetch_update_value (c : GoodMemCounter) (f : Int32 → Option Int32) :
    (c.fetch_update f).value = (f c.value).getD c.value ∧ (c.fetch_update f).limit = c.limit := by
  unfold GoodMemCounter.fetch_update
  cases f c.value <;> exact ⟨rfl, rfl⟩

theorem rust_simulates (L : Int32) (positive : 0 ≤ L.toInt) :
    SimulatesWhile machine (perform L.toInt) .ok (rustShows L) fun _ _ => True where
  answer _ _ op shows _ := answer_of_value shows.2.1 rfl rfl rfl op
  next c value op shows _ := by
    obtain ⟨rfl, rfl, within⟩ := shows
    refine ⟨?_, ?_, perform_within positive within op⟩
    · cases op with
      | Get => rfl
      | Inc => exact (fetch_update_value c _).2
      | Dec => exact (fetch_update_value c _).2
    · cases op with
      | Get => rfl
      | Inc => exact (congrArg Int32.toInt (fetch_update_value c _).1).trans (inc_perform within)
      | Dec => exact (congrArg Int32.toInt (fetch_update_value c _).1).trans (dec_perform within)

theorem rust_correct (L : Int32) (positive : 0 ≤ L.toInt) (ops : List Op) :
    Correct machine (GoodMemCounter.new L) L.toInt ops := by
  have start : rustShows L (GoodMemCounter.new L) 0 :=
    ⟨rfl, Int32.toInt_zero, within_init positive⟩
  exact correct_of_simulates positive (rust_simulates L positive) (fun _ => trivial) start
    (guarded_of_forall _ _ (fun _ _ => trivial) _ _)

end Rust

section Java

open Java

def javaShows (L : Int32) (c : MemCounter) (value : Int) : Prop :=
  c.limit = L ∧ c.value.toInt = value ∧ WithinRange L.toInt value

theorem java_simulates (L : Int32) (positive : 0 ≤ L.toInt) :
    SimulatesWhile machine (perform L.toInt) .ok (javaShows L) inRoom where
  answer _ _ op shows _ := answer_of_value shows.2.1 rfl rfl rfl op
  next c value op shows room := by
    obtain ⟨rfl, rfl, within⟩ := shows
    obtain ⟨low, high, small⟩ := within.fits
    refine ⟨?_, ?_, perform_within positive within op⟩
    · cases op <;> rfl
    · cases op with
      | Get => rfl
      | Inc =>
          have below : c.value.toInt ≠ 2 ^ 31 - 1 := fun last => room ⟨rfl, last⟩
          simp only [machine, MemCounter.inc, perform, toInt32_min]
          rw [toInt32_succ c.value (by omega)]
      | Dec =>
          have zero : (0 : Int32).toInt = 0 := Int32.toInt_zero
          simp only [machine, MemCounter.dec, perform, toInt32_max, zero]
          rw [toInt32_pred c.value (by omega)]

theorem java_start {L : Int32} (positive : 0 ≤ L.toInt) : javaShows L (MemCounter.new L) 0 :=
  ⟨rfl, Int32.toInt_zero, within_init positive⟩

/-- The increment at 2^31 - 1 wraps below the limit. -/
theorem java_wraps {L : Int32} {c : MemCounter} (shows : javaShows L c (2 ^ 31 - 1)) :
    c.inc.value = Int32.minValue := by
  obtain ⟨-, last, -⟩ := shows
  have greatest : c.value = Int32.maxValue := by
    rw [← Int32.toInt_inj, last]
    rfl
  have wrapped : c.value + 1 = Int32.minValue := by
    rw [greatest]
    rfl
  unfold MemCounter.inc
  simp only [wrapped]
  rw [← Int32.toInt_inj, toInt32_min]
  exact Int.min_eq_left (Int32.minValue_le_toInt _)

theorem java_correct_iff (L : Int32) (positive : 0 ≤ L.toInt) (ops : List Op) :
    Correct machine (MemCounter.new L) L.toInt ops ↔ NoOverflow L.toInt ops := by
  constructor
  · intro correct
    by_contra overflow
    obtain ⟨earlier, later, rfl, shows⟩ :=
      overflow_reached (java_simulates L positive) (java_start positive) overflow
    have wraps := java_wraps shows
    obtain ⟨value, got, low, -⟩ := correct.2 (earlier ++ [.Inc]) ⟨later, by simp⟩
    rw [after_append] at got
    have same : value = Int32.minValue.toInt := by
      rw [← wraps]
      exact (Option.some.inj (Except.ok.inj got)).symm
    rw [same] at low
    exact absurd low (by decide)
  · exact correct_of_simulates positive (java_simulates L positive) get_inRoom
      (java_start positive)

end Java

section Pg

open Pg

variable {counter : PGCounter} {L : Int32} {table : Table}

structure PgShows (counter : PGCounter) (L : Int32) (table : Table) (value : Int) : Prop where
  within : WithinRange L.toInt value
  row : ∃ row, rowsOf counter.name table = [row] ∧ row.max = L ∧ row.value.toInt = value

theorem pg_next (positive : 0 ≤ L.toInt) {value : Int} (within : WithinRange L.toInt value)
    {delta : Int32} {op : Op} {row row' : Row} (found : rowsOf counter.name table = [row])
    (max : row.max = L) (done : row.update counter.name delta = .ok row')
    (acts : row'.value.toInt = (perform L.toInt value op).2) :
    (updated table (counter.update table delta)).1 = .ok none ∧
      PgShows counter L (updated table (counter.update table delta)).2
        (perform L.toInt value op).2 := by
  obtain ⟨table', updates, rows⟩ := update_found found done
  rw [updates]
  have bound : row'.max = L := (update_identity done).2.trans max
  exact ⟨rfl, perform_within positive within op, row', rows, bound, acts⟩

theorem PgShows.step (positive : 0 ≤ L.toInt) {value : Int} (shows : PgShows counter L table value)
    (op : Op) (room : inRoom value op) :
    (machine counter table op).1 = .ok (perform L.toInt value op).1 ∧
      PgShows counter L (machine counter table op).2 (perform L.toInt value op).2 := by
  obtain ⟨within, row, found, rfl, rfl⟩ := shows
  obtain ⟨low, high, small⟩ := within.fits
  have own : row.name = counter.name := rowsOf_names (found ▸ List.mem_singleton_self row)
  cases op with
  | Get =>
      have got : counter.get table = .ok row.value := by
        unfold PGCounter.get
        rw [found]
      simp only [machine, got]
      exact ⟨rfl, within, row, found, rfl, rfl⟩
  | Inc =>
      have below : row.value.toInt ≠ 2 ^ 31 - 1 := fun last => room ⟨rfl, last⟩
      obtain ⟨row', done, acts⟩ := update_inc own ⟨low, high⟩ (by omega)
      exact pg_next positive within found rfl done acts
  | Dec =>
      obtain ⟨row', done, acts⟩ := update_dec own ⟨low, high⟩
      exact pg_next positive within found rfl done acts

theorem pg_simulates (counter : PGCounter) (L : Int32) (positive : 0 ≤ L.toInt) :
    SimulatesWhile (machine counter) (perform L.toInt) .ok (PgShows counter L) inRoom where
  answer _ _ op shows room := (shows.step positive op room).1
  next _ _ op shows room := (shows.step positive op room).2

/-- The increment at 2^31 - 1 is an error. -/
theorem pg_overflows (shows : PgShows counter L table (2 ^ 31 - 1)) :
    (machine counter table .Inc).1 = .error .integerOutOfRange := by
  obtain ⟨-, row, found, -, last⟩ := shows
  have own : row.name = counter.name := rowsOf_names (found ▸ List.mem_singleton_self row)
  have failed : counter.update table 1 = .error .integerOutOfRange :=
    update_failed found (update_inc_overflow own last)
  simp only [machine, PGCounter.inc, failed, updated]

theorem pg_start {name : String} (positive : 0 ≤ L.toInt) (fresh : rowsOf name table = []) :
    PgShows (PGCounter.create table name L).1 L (PGCounter.create table name L).2 0 := by
  refine ⟨within_init positive, ⟨name, 0, L⟩, ?_, rfl, Int32.toInt_zero⟩
  exact (rowsOf_create L).trans (if_pos fresh)

theorem pg_correct_iff {name : String} (positive : 0 ≤ L.toInt) (fresh : rowsOf name table = [])
    (ops : List Op) :
    Correct (machine (PGCounter.create table name L).1) (PGCounter.create table name L).2
      L.toInt ops ↔ NoOverflow L.toInt ops := by
  have simulates := pg_simulates (PGCounter.create table name L).1 L positive
  constructor
  · intro correct
    by_contra overflow
    obtain ⟨earlier, later, rfl, shows⟩ :=
      overflow_reached simulates (pg_start positive fresh) overflow
    have answer := answer_of_replay correct.1
    rw [pg_overflows shows] at answer
    cases answer
  · exact correct_of_simulates positive simulates get_inRoom (pg_start positive fresh)

end Pg

/-- All counters agree with the specification exactly while it makes no increment at
2^31 - 1; those of Go and Rust always do. -/
theorem counters_agree_iff (L : Int32) (positive : 0 ≤ L.toInt) (table : Table) (name : String)
    (fresh : rowsOf name table = []) (ops : List Op) :
    ((Correct Go.machine (Go.NewMemCounter L.toInt64) L.toInt ops ∧
      Correct Java.machine (Java.MemCounter.new L) L.toInt ops ∧
      Correct Rust.machine (Rust.GoodMemCounter.new L) L.toInt ops ∧
      Correct (Pg.machine (PGCounter.create table name L).1) (PGCounter.create table name L).2
        L.toInt ops) ↔ NoOverflow L.toInt ops) ∧
    Correct Go.machine (Go.NewMemCounter L.toInt64) L.toInt ops ∧
    Correct Rust.machine (Rust.GoodMemCounter.new L) L.toInt ops := by
  have go := go_correct L positive ops
  have rust := rust_correct L positive ops
  refine ⟨⟨?_, ?_⟩, go, rust⟩
  · rintro ⟨-, java, -, -⟩
    exact (java_correct_iff L positive ops).mp java
  · intro room
    exact ⟨go, (java_correct_iff L positive ops).mpr room, rust,
      (pg_correct_iff positive fresh ops).mpr room⟩

/-- A limit below 2^31 - 1 leaves room for every increment. -/
theorem noOverflow_of_lt {L : Int} (positive : 0 ≤ L) (below : L < 2 ^ 31 - 1) (ops : List Op) :
    NoOverflow L ops := by
  by_contra overflow
  obtain ⟨earlier, op, later, -, -, stopped⟩ := first_unguarded _ _ overflow
  obtain ⟨-, last⟩ := not_not.mp stopped
  have high := (after_within positive (within_init positive) earlier).2
  omega

theorem counters_agree_iff_three :
    Correct (Pg.machine (PGCounter.create [⟨"other", Int32.maxValue, Int32.maxValue⟩] "fresh" 3).1)
      (PGCounter.create [⟨"other", Int32.maxValue, Int32.maxValue⟩] "fresh" 3).2 3
      [.Inc, .Inc, .Inc, .Inc, .Get, .Dec, .Get] :=
  ((counters_agree_iff 3 (by decide) [⟨"other", Int32.maxValue, Int32.maxValue⟩] "fresh" rfl
    [.Inc, .Inc, .Inc, .Inc, .Get, .Dec, .Get]).1.mpr
      (noOverflow_of_lt (by decide) (by decide) _)).2.2.2

section Overflow

def incs (n : Nat) : List Op := List.replicate n Op.Inc

theorem incs_succ (n : Nat) : incs (n + 1) = incs n ++ [Op.Inc] := List.replicate_succ'

theorem after_incs {L : Int} (n : Nat) (high : n ≤ L) :
    after (perform L) 0 (incs n) = n := by
  induction n with
  | zero => rfl
  | succ n ih =>
      rw [incs_succ, after_append, ih (by omega)]
      simp only [after, perform]
      omega

theorem incs_noOverflow {L : Int} (n : Nat) (high : n ≤ L) (short : (n : Int) ≤ 2 ^ 31 - 1) :
    NoOverflow L (incs n) := by
  induction n with
  | zero => trivial
  | succ n ih =>
      rw [incs_succ]
      refine (guarded_append _ _ _ _ _).mpr ⟨ih (by omega) (by omega), ?_, trivial⟩
      rw [after_incs n (by omega)]
      rintro ⟨-, last⟩
      omega

theorem incs_overflow {n : Nat} (last : (n : Int) = 2 ^ 31 - 1) (later : List Op) :
    ¬NoOverflow n (incs n ++ Op.Inc :: later) := by
  intro room
  have fails := ((guarded_append _ _ _ _ _).mp room).2.1
  rw [after_incs n (Int.le_refl _)] at fails
  exact fails ⟨rfl, last⟩

/-- The increment after those from 0 to 2^31 - 1. -/
theorem disagree_at {n : Nat} (last : (n : Int) = 2 ^ 31 - 1) :
    (Java.machine (after Java.machine (Java.MemCounter.new Int32.maxValue)
      (incs n ++ [Op.Inc])) Op.Get).1 = .ok (some (-2 ^ 31)) ∧
    (perform (2 ^ 31 - 1) (after (perform (2 ^ 31 - 1)) 0
      (incs n ++ [Op.Inc])) Op.Get).1 = some (2 ^ 31 - 1) ∧
    ¬Correct Java.machine (Java.MemCounter.new Int32.maxValue) Int32.maxValue.toInt
      (incs n ++ [Op.Inc, Op.Get]) ∧
    ¬Correct (Pg.machine (PGCounter.create [] "counter" Int32.maxValue).1)
      (PGCounter.create [] "counter" Int32.maxValue).2 Int32.maxValue.toInt
      (incs n ++ [Op.Inc, Op.Get]) := by
  have positive : 0 ≤ Int32.maxValue.toInt := by decide
  have limit : Int32.maxValue.toInt = n := Int32.toInt_maxValue.trans last.symm
  have overflows := incs_overflow last [.Get]
  refine ⟨?_, ?_, ?_, ?_⟩
  · have room : NoOverflow Int32.maxValue.toInt (incs n) :=
      incs_noOverflow n (Int.le_of_eq limit.symm) (by omega)
    have shows := (java_simulates _ positive).after (java_start positive) room
    rw [limit, after_incs n (Int.le_refl _), last] at shows
    rw [after_append]
    exact congrArg (fun v => (.ok (some (Int32.toInt v)) : Answer)) (java_wraps shows)
  · rw [← last, after_append, after_incs n (Int.le_refl _)]
    simp only [after, perform]
    congr 1
    omega
  · rw [java_correct_iff _ positive, limit]
    exact overflows
  · rw [pg_correct_iff positive rfl, limit]
    exact overflows

theorem counters_disagree :
    (Java.machine (after Java.machine (Java.MemCounter.new Int32.maxValue)
      (incs 2147483647 ++ [Op.Inc])) Op.Get).1 = .ok (some (-2 ^ 31)) ∧
    (perform (2 ^ 31 - 1) (after (perform (2 ^ 31 - 1)) 0
      (incs 2147483647 ++ [Op.Inc])) Op.Get).1 = some (2 ^ 31 - 1) ∧
    ¬Correct Java.machine (Java.MemCounter.new Int32.maxValue) Int32.maxValue.toInt
      (incs 2147483647 ++ [Op.Inc, Op.Get]) ∧
    ¬Correct (Pg.machine (PGCounter.create [] "counter" Int32.maxValue).1)
      (PGCounter.create [] "counter" Int32.maxValue).2 Int32.maxValue.toInt
      (incs 2147483647 ++ [Op.Inc, Op.Get]) :=
  disagree_at (by omega)

end Overflow

end FizzbeeMbt.Counter
