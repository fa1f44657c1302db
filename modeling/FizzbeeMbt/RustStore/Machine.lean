import FizzbeeMbt.RustStore.Store
import FizzbeeMbt.Lib.Runs
import Mathlib.Logic.Function.Basic

/-! Any number of clients on one Rust `EmbeddedKvStore`, interleaved at its await
points.

`flush` holds `flush_gate` from its lock to its end, and its future may be dropped
wherever it awaits. `get` takes no lock across its steps: it looks in `buf`, then
in `immutable_buf`, then lists, then reads one segment a step. -/

namespace FizzbeeMbt.RustStore

open FizzbeeMbt.Maps FizzbeeMbt.Deltas FizzbeeMbt.Runs

/-- Where the call of one client stands. The list of `getReading` holds the
segments still to be read, in the order in which they are read. -/
inductive Thread (Path : Type) where
  | idle
  | getBuf (key : Key)
  | getImmutable (key : Key)
  | getListing (key : Key) (level : DurabilityLevel)
  | getReading (key : Key) (level : DurabilityLevel) (remaining : List Path)
  | flushCalled
  | flushFreezing
  | flushTaking
  | flushPutting (filename : Path) (content : Map Key Value)
  | flushClearing

variable {Client Path : Type}

def Thread.holdsGate : Thread Path → Bool
  | .flushFreezing => true
  | .flushTaking => true
  | .flushPutting _ _ => true
  | .flushClearing => true
  | _ => false

/-- What the thread has moved out of `immutable_buf` and not yet put. -/
def Thread.carried : Thread Path → Map Key Value
  | .flushPutting _ content => content
  | _ => ∅

/-- The first step of `get`. -/
def getStart (key : Key) (level : DurabilityLevel) : Thread Path :=
  match level with
  | .Memory => .getBuf key
  | .Remote => .getListing key .Remote

section Start

variable (key key' : Key) (level level' : DurabilityLevel)

@[simp] theorem getStart_getImmutable :
    (getStart key level : Thread Path) = .getImmutable key' ↔ False := by
  cases level <;> simp [getStart]

@[simp] theorem getStart_getListing :
    (getStart key level : Thread Path) = .getListing key' .Memory ↔ False := by
  cases level <;> simp [getStart]

@[simp] theorem getStart_getReading (remaining : List Path) :
    getStart key level = .getReading key' level' remaining ↔ False := by
  cases level <;> simp [getStart]

@[simp] theorem getStart_flushPutting (filename : Path) (content : Map Key Value) :
    getStart key level = .flushPutting filename content ↔ False := by
  cases level <;> simp [getStart]

@[simp] theorem getStart_flushClearing :
    (getStart key level : Thread Path) = .flushClearing ↔ False := by
  cases level <;> simp [getStart]

end Start

/-- `lastUlid` is the path made from the last result of `Ulid::new`. -/
structure State (Client Path : Type) where
  store : EmbeddedKvStore
  objects : ObjectStore Path
  lastUlid : Option Path
  flush_gate : Option Client
  thread : Client → Thread Path

inductive Event (Client Path : Type) where
  | put (c : Client) (key : Key) (value : RawValue)
  | delete (c : Client) (key : Key)
  | getCalled (c : Client) (key : Key) (level : DurabilityLevel)
  | bufMissed (c : Client)
  | immutableMissed (c : Client)
  | listed (c : Client)
  | segmentPassed (c : Client)
  | getReturned (c : Client) (key : Key) (level : DurabilityLevel)
      (answer : Except IoError Value)
  | flushCalled (c : Client)
  | gateTaken (c : Client)
  | frozen (c : Client)
  | freezeSkipped (c : Client)
  | freezeRefused (c : Client)
  | tookNothing (c : Client)
  | taken (c : Client)
  | landed (c : Client) (filename : Path)
  | putFailed (c : Client)
  | putDropped (c : Client)
  | dropped (c : Client)
  | flushReturned (c : Client)

variable [DecidableEq Client] [LinearOrder Path]

def initial : State Client Path := ⟨.new, ∅, none, none, fun _ => .idle⟩

def State.move (s : State Client Path) (c : Client) (thread : Thread Path) :
    State Client Path :=
  { s with thread := Function.update s.thread c thread }

def State.openGate (s : State Client Path) : State Client Path := { s with flush_gate := none }

/-- The atomic steps. `freezeSkipped` and `freezeRefused` are the freezes that do
nothing, on an empty `buf` and on a leftover `immutable_buf`. A `put` of the object
store that does not land fails or is dropped; `dropped` is the end of a flush
future at any other await point, and `flushReturned` its return with Ok. -/
inductive Step : State Client Path → Event Client Path → State Client Path → Prop
  | put {s : State Client Path} (c : Client) (key : Key) (value : RawValue)
      (idle : s.thread c = .idle) :
      Step s (.put c key value) { s with store := s.store.put key value }
  | delete {s : State Client Path} (c : Client) (key : Key) (idle : s.thread c = .idle) :
      Step s (.delete c key) { s with store := s.store.delete key }
  | getCalled {s : State Client Path} (c : Client) (key : Key) (level : DurabilityLevel)
      (idle : s.thread c = .idle) :
      Step s (.getCalled c key level) (s.move c (getStart key level))
  | bufFound {s : State Client Path} (c : Client) {key : Key} {value : Value}
      (looking : s.thread c = .getBuf key) (found : s.store.buf.lookup key = some value) :
      Step s (.getReturned c key .Memory (.ok value)) (s.move c .idle)
  | bufMissed {s : State Client Path} (c : Client) {key : Key}
      (looking : s.thread c = .getBuf key) (missed : s.store.buf.lookup key = none) :
      Step s (.bufMissed c) (s.move c (.getImmutable key))
  | immutableFound {s : State Client Path} (c : Client) {key : Key} {value : Value}
      (looking : s.thread c = .getImmutable key)
      (found : s.store.immutable_buf.lookup key = some value) :
      Step s (.getReturned c key .Memory (.ok value)) (s.move c .idle)
  | immutableMissed {s : State Client Path} (c : Client) {key : Key}
      (looking : s.thread c = .getImmutable key)
      (missed : s.store.immutable_buf.lookup key = none) :
      Step s (.immutableMissed c) (s.move c (.getListing key .Memory))
  | listed {s : State Client Path} (c : Client) {key : Key} {level : DurabilityLevel}
      (listing : List Path) (at_list : s.thread c = .getListing key level)
      (lists : ListsAscending s.objects listing) :
      Step s (.listed c) (s.move c (.getReading key level listing.reverse))
  | segmentAnswered {s : State Client Path} (c : Client) {key : Key} {level : DurabilityLevel}
      {path : Path} {rest : List Path} {answer : Except IoError Value}
      (reading : s.thread c = .getReading key level (path :: rest))
      (answered : look_in_segment (fetch s.objects path) key = some answer) :
      Step s (.getReturned c key level answer) (s.move c .idle)
  | segmentPassed {s : State Client Path} (c : Client) {key : Key} {level : DurabilityLevel}
      {path : Path} {rest : List Path}
      (reading : s.thread c = .getReading key level (path :: rest))
      (passed : look_in_segment (fetch s.objects path) key = none) :
      Step s (.segmentPassed c) (s.move c (.getReading key level rest))
  | scanEnded {s : State Client Path} (c : Client) {key : Key} {level : DurabilityLevel}
      (reading : s.thread c = .getReading key level []) :
      Step s (.getReturned c key level (.ok none)) (s.move c .idle)
  | flushCalled {s : State Client Path} (c : Client) (idle : s.thread c = .idle) :
      Step s (.flushCalled c) (s.move c .flushCalled)
  | gateTaken {s : State Client Path} (c : Client) (called : s.thread c = .flushCalled)
      (free : s.flush_gate = none) :
      Step s (.gateTaken c) { s.move c .flushFreezing with flush_gate := some c }
  | frozen {s : State Client Path} (c : Client) (freezing : s.thread c = .flushFreezing)
      (did_freeze : s.store.freeze_internal.1 = true) :
      Step s (.frozen c) { s.move c .flushTaking with store := s.store.freeze_internal.2 }
  | freezeSkipped {s : State Client Path} (c : Client)
      (freezing : s.thread c = .flushFreezing) (not_frozen : s.store.freeze_internal.1 = false)
      (empty : s.store.buf.isEmpty = true) :
      Step s (.freezeSkipped c)
        { s.move c .flushTaking with store := s.store.freeze_internal.2 }
  | freezeRefused {s : State Client Path} (c : Client)
      (freezing : s.thread c = .flushFreezing) (not_frozen : s.store.freeze_internal.1 = false)
      (filled : s.store.buf.isEmpty = false) :
      Step s (.freezeRefused c)
        { s.move c .flushTaking with store := s.store.freeze_internal.2 }
  | tookNothing {s : State Client Path} (c : Client) (taking : s.thread c = .flushTaking)
      (nothing : s.store.take_immutable = none) :
      Step s (.tookNothing c) (s.move c .flushClearing)
  | taken {s : State Client Path} (c : Client) (filename : Path) {content : Map Key Value}
      {store : EmbeddedKvStore} (taking : s.thread c = .flushTaking)
      (took : s.store.take_immutable = some (content, store))
      (increasing : ∀ last ∈ s.lastUlid, last < filename) :
      Step s (.taken c)
        { s.move c (.flushPutting filename content) with
          store := store
          lastUlid := some filename }
  | landed {s : State Client Path} (c : Client) {filename : Path} {content : Map Key Value}
      (putting : s.thread c = .flushPutting filename content) :
      Step s (.landed c filename)
        { s.move c .flushClearing with objects := s.objects.insert filename content }
  | putFailed {s : State Client Path} (c : Client) {filename : Path} {content : Map Key Value}
      (putting : s.thread c = .flushPutting filename content) :
      Step s (.putFailed c) (s.move c .idle).openGate
  | putDropped {s : State Client Path} (c : Client) {filename : Path} {content : Map Key Value}
      (putting : s.thread c = .flushPutting filename content) :
      Step s (.putDropped c) (s.move c .idle).openGate
  | droppedWaiting {s : State Client Path} (c : Client) (called : s.thread c = .flushCalled) :
      Step s (.dropped c) (s.move c .idle)
  | dropped {s : State Client Path} (c : Client)
      (awaiting : s.thread c = .flushFreezing ∨ s.thread c = .flushTaking ∨
        s.thread c = .flushClearing) :
      Step s (.dropped c) (s.move c .idle).openGate
  | flushReturned {s : State Client Path} (c : Client)
      (clearing : s.thread c = .flushClearing) :
      Step s (.flushReturned c)
        { (s.move c .idle).openGate with store := s.store.clear_immutable }

def system : System (State Client Path) (Event Client Path) where
  start := fun s => s = initial
  step := Step

section Traces

abbrev Trace (Client Path : Type) := List (Event Client Path)

def writeOf : Event Client Path → Option (Key × Value)
  | .put _ key value => some (key, some value)
  | .delete _ key => some (key, none)
  | _ => none

/-- The completed puts and deletes, newest first. -/
def writes (trace : Trace Client Path) : History Key RawValue := trace.filterMap writeOf

def isCalledBy (c : Client) : Event Client Path → Bool
  | .getCalled c' _ _ => c' = c
  | .flushCalled c' => c' = c
  | _ => false

def isListedBy (c : Client) : Event Client Path → Bool
  | .listed c' => c' = c
  | _ => false

def isFrozenBy (c : Client) : Event Client Path → Bool
  | .frozen c' => c' = c
  | _ => false

/-- The instant at which the last call of `c` began. -/
def calledAt (c : Client) (trace : Trace Client Path) : Trace Client Path :=
  before (isCalledBy c) trace

/-- The instant at which the last `get` of `c` listed the objects. -/
def listedAt (c : Client) (trace : Trace Client Path) : Trace Client Path :=
  before (isListedBy c) trace

/-- The instant at which the flush that wrote the latest landed segment froze, the
start of the run when no segment has landed. -/
def landedAt : Trace Client Path → Trace Client Path
  | [] => []
  | .landed c _ :: trace => before (isFrozenBy c) trace
  | _ :: trace => landedAt trace

/-- The instants up to which the landed segments, and the segments with everything
frozen or on its way, answer for the writes. A flush that stops before its object
exists drops what it carried. -/
def marks : Trace Client Path → Trace Client Path × Trace Client Path
  | [] => ([], [])
  | .frozen _ :: trace => ((marks trace).1, trace)
  | .landed _ _ :: trace => ((marks trace).2, (marks trace).2)
  | .putFailed _ :: trace => ((marks trace).1, (marks trace).1)
  | .putDropped _ :: trace => ((marks trace).1, (marks trace).1)
  | _ :: trace => marks trace

def durableAt (trace : Trace Client Path) : Trace Client Path := (marks trace).1

def pendingAt (trace : Trace Client Path) : Trace Client Path := (marks trace).2

/-- A flush call of `c` is in progress. -/
def flushing (c : Client) : Trace Client Path → Bool
  | [] => false
  | .flushCalled c' :: trace => c' = c || flushing c trace
  | .putFailed c' :: trace => c' ≠ c && flushing c trace
  | .putDropped c' :: trace => c' ≠ c && flushing c trace
  | .dropped c' :: trace => c' ≠ c && flushing c trace
  | .flushReturned c' :: trace => c' ≠ c && flushing c trace
  | _ :: trace => flushing c trace

def isPutLost : Event Client Path → Bool
  | .putFailed _ => true
  | .putDropped _ => true
  | _ => false

def isDropped : Event Client Path → Bool
  | .dropped _ => true
  | _ => false

/-- No error of the object store and no dropped future. -/
def faultFree (_ : Trace Client Path) (_ : State Client Path) (event : Event Client Path) :
    Prop :=
  isPutLost event = false ∧ isDropped event = false

instance (trace : Trace Client Path) (s : State Client Path) (event : Event Client Path) :
    Decidable (faultFree trace s event) :=
  inferInstanceAs (Decidable (isPutLost event = false ∧ isDropped event = false))

end Traces

end FizzbeeMbt.RustStore
