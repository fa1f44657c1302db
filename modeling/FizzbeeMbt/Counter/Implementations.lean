import FizzbeeMbt.Counter.Spec
import FizzbeeMbt.Counter.PgTable

/-! The counters of the Go, Java and Rust quickstarts and of their PostgreSQL variants,
called one method at a time. -/

namespace FizzbeeMbt.Counter

open FizzbeeMbt.Replay

/-- What a method returns, with the value of a get as an integer. -/
abbrev Answer := Except CounterError (Option Int)

namespace Go

structure MemCounter where
  limit : Int64
  value : Int64
  deriving DecidableEq

def NewMemCounter (limit : Int64) : MemCounter := ⟨limit, 0⟩

def MemCounter.Inc (c : MemCounter) : MemCounter :=
  if c.value < c.limit then { c with value := c.value + 1 } else c

def MemCounter.Dec (c : MemCounter) : MemCounter :=
  if 0 < c.value then { c with value := c.value - 1 } else c

def MemCounter.Get (c : MemCounter) : Int64 := c.value

def machine : Machine MemCounter Op Answer
  | c, .Inc => (.ok none, c.Inc)
  | c, .Dec => (.ok none, c.Dec)
  | c, .Get => (.ok (some c.Get.toInt), c)

end Go

namespace Java

structure MemCounter where
  limit : Int32
  value : Int32
  deriving DecidableEq

def MemCounter.new (limit : Int32) : MemCounter := ⟨limit, 0⟩

/-- `Integer.min(value + 1, limit)`; the addition wraps. -/
def MemCounter.inc (c : MemCounter) : MemCounter :=
  { c with value := min (c.value + 1) c.limit }

def MemCounter.dec (c : MemCounter) : MemCounter :=
  { c with value := max (c.value - 1) 0 }

def MemCounter.get (c : MemCounter) : Int32 := c.value

def machine : Machine MemCounter Op Answer
  | c, .Inc => (.ok none, c.inc)
  | c, .Dec => (.ok none, c.dec)
  | c, .Get => (.ok (some c.get.toInt), c)

end Java

namespace Rust

structure GoodMemCounter where
  limit : Int32
  value : Int32
  deriving DecidableEq

def GoodMemCounter.new (limit : Int32) : GoodMemCounter := ⟨limit, 0⟩

/-- The closure that `inc` gives to `fetch_update`. -/
def inc (limit current : Int32) : Option Int32 :=
  if current < limit then some (current + 1) else none

/-- The closure that `dec` gives to `fetch_update`. -/
def dec (current : Int32) : Option Int32 :=
  if 0 < current then some (current - 1) else none

/-- `fetch_update` that nothing overtakes: the first exchange succeeds. -/
def GoodMemCounter.fetch_update (c : GoodMemCounter) (f : Int32 → Option Int32) :
    GoodMemCounter :=
  match f c.value with
  | some next => { c with value := next }
  | none => c

def machine : Machine GoodMemCounter Op Answer
  | c, .Inc => (.ok none, c.fetch_update (inc c.limit))
  | c, .Dec => (.ok none, c.fetch_update dec)
  | c, .Get => (.ok (some c.value.toInt), c)

end Rust

namespace Pg

def updated (table : Table) : Except CounterError Table → Answer × Table
  | .ok table' => (.ok none, table')
  | .error e => (.error e, table)

/-- The methods of one handle, on a table that may hold other counters. -/
def machine (counter : PGCounter) : Machine Table Op Answer
  | table, .Inc => updated table (counter.inc table)
  | table, .Dec => updated table (counter.dec table)
  | table, .Get =>
      match counter.get table with
      | .ok value => (.ok (some value.toInt), table)
      | .error e => (.error e, table)

end Pg

end FizzbeeMbt.Counter
