import FizzbeeMbt.Lib.Runs
import FizzbeeMbt.Counter.Implementations

/-! The atomic steps of concurrent calls of `GoodMemCounter`, with `fetch_update` as its
retry loop. -/

namespace FizzbeeMbt.Counter.Rust

open FizzbeeMbt.Replay FizzbeeMbt.Runs

variable {Client : Type} [DecidableEq Client]

/-- Where a client is in a call: in the loop it holds the value it last observed. -/
inductive Call where
  | idle
  | called (op : Op)
  | loaded (op : Op) (prev : Int32)
  | finished (op : Op) (result : Option Int32)
  deriving DecidableEq, Repr

inductive Event (Client : Type) where
  | call (c : Client) (op : Op)
  | load (c : Client) (op : Op) (current : Int32)
  | exchanged (c : Client) (op : Op) (prev next : Int32)
  | failed (c : Client) (op : Op) (observed : Int32)
  | stopped (c : Client)
  | returned (c : Client) (op : Op) (result : Option Int32)
  deriving DecidableEq, Repr

structure State (Client : Type) where
  value : Int32
  calls : Client → Call

def State.at (s : State Client) (c : Client) (call : Call) : State Client :=
  { s with calls := Function.update s.calls c call }

/-- The closure of each method; a get has none and ends at its load. -/
def closure (limit : Int32) : Op → Int32 → Option Int32
  | .Inc => inc limit
  | .Dec => dec
  | .Get => fun _ => none

/-- An exchange may fail spuriously: then it observes the value it expected. -/
inductive Step (limit : Int32) : State Client → Event Client → State Client → Prop
  | call (s : State Client) (c : Client) (op : Op) (idle : s.calls c = .idle) :
      Step limit s (.call c op) (s.at c (.called op))
  | get (s : State Client) (c : Client) (called : s.calls c = .called .Get) :
      Step limit s (.load c .Get s.value) (s.at c (.finished .Get (some s.value)))
  | load (s : State Client) (c : Client) {op : Op} (called : s.calls c = .called op)
      (updates : op ≠ .Get) : Step limit s (.load c op s.value) (s.at c (.loaded op s.value))
  | exchanged (s : State Client) (c : Client) {op : Op} {prev next : Int32}
      (loaded : s.calls c = .loaded op prev) (writes : closure limit op prev = some next)
      (unchanged : s.value = prev) :
      Step limit s (.exchanged c op prev next) { s.at c (.finished op none) with value := next }
  | failed (s : State Client) (c : Client) {op : Op} {prev next : Int32}
      (loaded : s.calls c = .loaded op prev) (writes : closure limit op prev = some next) :
      Step limit s (.failed c op s.value) (s.at c (.loaded op s.value))
  | stopped (s : State Client) (c : Client) {op : Op} {prev : Int32}
      (loaded : s.calls c = .loaded op prev) (ends : closure limit op prev = none) :
      Step limit s (.stopped c) (s.at c (.finished op none))
  | returned (s : State Client) (c : Client) {op : Op} {result : Option Int32}
      (finished : s.calls c = .finished op result) :
      Step limit s (.returned c op result) (s.at c .idle)

def calls (limit : Int32) : System (State Client) (Event Client) where
  start s := s.value = (GoodMemCounter.new limit).value ∧ ∀ c, s.calls c = .idle
  step := Step limit

section History

variable (limit : Int32)

/-- The events at which a call acts: a successful exchange, or the read of a value that
its closure leaves as it is. -/
def Event.acts : Event Client → Option (Client × Op)
  | .load c op current => if closure limit op current = none then some (c, op) else none
  | .failed c op observed => if closure limit op observed = none then some (c, op) else none
  | .exchanged c op _ _ => some (c, op)
  | _ => none

/-- The specification's value after the actions so far, each at its instant. -/
def counted : List (Event Client) → Int
  | [] => 0
  | event :: earlier =>
      match event.acts limit with
      | some (_, op) => (perform limit.toInt (counted earlier) op).2
      | none => counted earlier

def Event.isCall (c : Client) : Event Client → Bool
  | .call c' _ => c' = c
  | _ => false

/-- The instant of the newest call of a client. -/
def calledAt (c : Client) (trace : List (Event Client)) : List (Event Client) :=
  before (Event.isCall c) trace

/-- The actions of a client since its newest call, each with the instant before it. -/
def acted (c : Client) : List (Event Client) → List (Op × List (Event Client))
  | [] => []
  | event :: earlier =>
      if event.isCall c then []
      else
        match event.acts limit with
        | some (c', op) => if c' = c then (op, earlier) :: acted c earlier else acted c earlier
        | none => acted c earlier

/-- A call acted once, as its method, at an instant since it was made. -/
structure Linearized (c : Client) (op : Op) (p trace : List (Event Client)) : Prop where
  once : acted limit c trace = [(op, p)]
  inside : Between (.call c op :: calledAt c trace) p trace

/-- The newest call of a client is of this method. -/
def Begun (c : Client) (op : Op) (trace : List (Event Client)) : Prop :=
  .call c op :: calledAt c trace <:+ trace

end History

end FizzbeeMbt.Counter.Rust
