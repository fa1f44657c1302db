import FizzbeeMbt.GoStore.Store
import FizzbeeMbt.Lib.Runs
import Mathlib.Logic.Function.Basic

/-! Any number of clients on one Go `KVStore`, interleaved at its locks.

Put and Delete are one step under `mu`. Get holds `mu` from its lock to its
return and reads one blob a step; Flush holds `flushMutex` and takes `mu` only to
freeze the buffer and to clear `immutableBuf`, so that its blob write can fall
between any two blob reads. -/

namespace FizzbeeMbt.GoStore

open FizzbeeMbt.Maps FizzbeeMbt.Deltas FizzbeeMbt.Runs

/-- Where the call of one client stands. -/
inductive Thread where
  | idle
  | getCalled (key : Bytes) (durability : DurabilityLevel)
  | getLocked (key : Bytes) (durability : DurabilityLevel)
  | getScanning (key : Bytes) (durability : DurabilityLevel) (i : Nat)
  | flushCalled
  | flushLocked
  | flushWriting (flushID : Nat) (bufMap : Map Bytes Bytes)
  | flushClearing

def Thread.holdsMu : Thread → Bool
  | .getLocked _ _ => true
  | .getScanning _ _ _ => true
  | _ => false

def Thread.holdsFlushMutex : Thread → Bool
  | .flushLocked => true
  | .flushWriting _ _ => true
  | .flushClearing => true
  | _ => false

structure State (Client : Type) where
  store : KVStore
  bucket : Bucket
  mu : Option Client
  flushMutex : Option Client
  thread : Client → Thread

inductive Event (Client : Type) where
  | put (c : Client) (key value : Bytes)
  | delete (c : Client) (key : Bytes)
  | getCalled (c : Client) (key : Bytes) (durability : DurabilityLevel)
  | getLocked (c : Client)
  | getMissed (c : Client)
  | blobPassed (c : Client)
  | getReturned (c : Client) (key : Bytes) (durability : DurabilityLevel)
      (answer : Except GetError Bytes)
  | flushCalled (c : Client)
  | flushLocked (c : Client)
  | flushSkipped (c : Client)
  | frozen (c : Client)
  | blobWritten (c : Client) (flushID : Nat)
  | writeFailed (c : Client) (flushID : Nat)
  | flushReturned (c : Client)

variable {Client : Type} [DecidableEq Client]

def initial : State Client := ⟨NewKVStore, emptyBucket, none, none, fun _ => .idle⟩

def State.move (s : State Client) (c : Client) (thread : Thread) : State Client :=
  { s with thread := Function.update s.thread c thread }

def State.unlockMu (s : State Client) : State Client := { s with mu := none }

def State.unlockFlush (s : State Client) : State Client := { s with flushMutex := none }

/-- The atomic steps. `flushSkipped` and `flushReturned` are the returns of Flush
with nil, `writeFailed` is its return with the error of `writeBlob`. -/
inductive Step : State Client → Event Client → State Client → Prop
  | put {s : State Client} (c : Client) (key value : Bytes)
      (idle : s.thread c = .idle) (free : s.mu = none) :
      Step s (.put c key value) { s with store := s.store.Put key value }
  | delete {s : State Client} (c : Client) (key : Bytes)
      (idle : s.thread c = .idle) (free : s.mu = none) :
      Step s (.delete c key) { s with store := s.store.Delete key }
  | getCalled {s : State Client} (c : Client) (key : Bytes) (opts : Option ReadOptions)
      (idle : s.thread c = .idle) :
      Step s (.getCalled c key (durabilityOf opts))
        (s.move c (.getCalled key (durabilityOf opts)))
  | getLocked {s : State Client} (c : Client) {key : Bytes} {durability : DurabilityLevel}
      (called : s.thread c = .getCalled key durability) (free : s.mu = none) :
      Step s (.getLocked c) { s.move c (.getLocked key durability) with mu := some c }
  | getFound {s : State Client} (c : Client) {key : Bytes} {answer : Except GetError Bytes}
      (locked : s.thread c = .getLocked key .DurabilityMemory)
      (found : s.store.getMemory key = some answer) :
      Step s (.getReturned c key .DurabilityMemory answer) (s.move c .idle).unlockMu
  | getMissed {s : State Client} (c : Client) {key : Bytes} {durability : DurabilityLevel}
      (locked : s.thread c = .getLocked key durability)
      (missed : durability = .DurabilityMemory → s.store.getMemory key = none) :
      Step s (.getMissed c) (s.move c (.getScanning key durability s.store.flushID))
  | blobAnswered {s : State Client} (c : Client) {key : Bytes} {durability : DurabilityLevel}
      {i : Nat} {answer : Except GetError Bytes}
      (scanning : s.thread c = .getScanning key durability (i + 1))
      (answered : scanBlob (s.bucket.ReadAll (blobKey (i + 1))) key = some answer) :
      Step s (.getReturned c key durability answer) (s.move c .idle).unlockMu
  | blobPassed {s : State Client} (c : Client) {key : Bytes} {durability : DurabilityLevel}
      {i : Nat} (scanning : s.thread c = .getScanning key durability (i + 1))
      (passed : scanBlob (s.bucket.ReadAll (blobKey (i + 1))) key = none) :
      Step s (.blobPassed c) (s.move c (.getScanning key durability i))
  | scanEnded {s : State Client} (c : Client) {key : Bytes} {durability : DurabilityLevel}
      (scanning : s.thread c = .getScanning key durability 0) :
      Step s (.getReturned c key durability (.error .KEY_NOT_FOUND)) (s.move c .idle).unlockMu
  | flushCalled {s : State Client} (c : Client) (idle : s.thread c = .idle) :
      Step s (.flushCalled c) (s.move c .flushCalled)
  | flushLocked {s : State Client} (c : Client) (called : s.thread c = .flushCalled)
      (free : s.flushMutex = none) :
      Step s (.flushLocked c) { s.move c .flushLocked with flushMutex := some c }
  | flushSkipped {s : State Client} (c : Client) (locked : s.thread c = .flushLocked)
      (free : s.mu = none) (empty : s.store.buffer.isEmpty = true) :
      Step s (.flushSkipped c) (s.move c .idle).unlockFlush
  | frozen {s : State Client} (c : Client) (locked : s.thread c = .flushLocked)
      (free : s.mu = none) (filled : s.store.buffer.isEmpty = false) :
      Step s (.frozen c)
        { s.move c (.flushWriting s.store.freeze.2.flushID s.store.freeze.1) with
          store := s.store.freeze.2 }
  | blobWritten {s : State Client} (c : Client) {flushID : Nat} {bufMap : Map Bytes Bytes}
      (writing : s.thread c = .flushWriting flushID bufMap) :
      Step s (.blobWritten c flushID)
        { s.move c .flushClearing with
          bucket := s.bucket.WriteAll (blobKey flushID) (Marshal bufMap) }
  | writeFailed {s : State Client} (c : Client) {flushID : Nat} {bufMap : Map Bytes Bytes}
      (writing : s.thread c = .flushWriting flushID bufMap) :
      Step s (.writeFailed c flushID) (s.move c .idle).unlockFlush
  | flushReturned {s : State Client} (c : Client) (clearing : s.thread c = .flushClearing)
      (free : s.mu = none) :
      Step s (.flushReturned c)
        { (s.move c .idle).unlockFlush with store := s.store.clearImmutable }

def system : System (State Client) (Event Client) where
  start := fun s => s = initial
  step := Step

section Traces

abbrev Trace (Client : Type) := List (Event Client)

def writeOf : Event Client → Option (Bytes × Option Bytes)
  | .put _ key value => some (key, some value)
  | .delete _ key => some (key, none)
  | _ => none

/-- The completed Puts and Deletes, newest first. -/
def writes (trace : Trace Client) : History Bytes Bytes := trace.filterMap writeOf

def isFrozen : Event Client → Bool
  | .frozen _ => true
  | _ => false

def isFrozenBy (c : Client) : Event Client → Bool
  | .frozen c' => c' = c
  | _ => false

def isGetLockedBy (c : Client) : Event Client → Bool
  | .getLocked c' => c' = c
  | _ => false

def isCalledBy (c : Client) : Event Client → Bool
  | .getCalled c' _ _ => c' = c
  | .flushCalled c' => c' = c
  | _ => false

/-- The instant at which the last Get of `c` took `mu`. -/
def lockedAt (c : Client) (trace : Trace Client) : Trace Client :=
  before (isGetLockedBy c) trace

/-- The instant at which the last call of `c` began. -/
def calledAt (c : Client) (trace : Trace Client) : Trace Client :=
  before (isCalledBy c) trace

/-- The instant of the last freeze. -/
def frozenAt (trace : Trace Client) : Trace Client := before isFrozen trace

/-- The instant at which the latest Flush whose blob has landed froze the buffer,
the start of the run when no blob has landed. -/
def landedAt : Trace Client → Trace Client
  | [] => []
  | .blobWritten c _ :: trace => before (isFrozenBy c) trace
  | _ :: trace => landedAt trace

def isWriteFailed : Event Client → Bool
  | .writeFailed _ _ => true
  | _ => false

def faultFree (_ : Trace Client) (_ : State Client) (event : Event Client) : Prop :=
  isWriteFailed event = false

def keyOf : Event Client → Option Bytes
  | .put _ key _ => some key
  | .delete _ key => some key
  | _ => none

/-- All keys ever written are valid UTF-8. -/
def Utf8Keys (trace : Trace Client) : Prop :=
  ∀ event ∈ trace, ∀ key ∈ keyOf event, Utf8Valid key

instance (trace : Trace Client) : Decidable (Utf8Keys trace) :=
  inferInstanceAs (Decidable (∀ event ∈ trace, ∀ key ∈ keyOf event, Utf8Valid key))

end Traces

end FizzbeeMbt.GoStore
