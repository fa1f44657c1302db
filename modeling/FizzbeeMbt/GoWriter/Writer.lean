import FizzbeeMbt.Lib.Runs

/-! The Go buffered writer: its methods, and the steps of concurrent calls of them. -/

namespace FizzbeeMbt.GoWriter

open FizzbeeMbt.Runs

/-- The two slices of a `BufferedWriter`, as immutable values. -/
structure BufferedWriter where
  flushed : List Int
  buffered : List Int
  deriving DecidableEq, Repr

def NewBufferedWriter : BufferedWriter := ⟨[], []⟩

namespace BufferedWriter

def Append (bw : BufferedWriter) (x : Int) : BufferedWriter :=
  { bw with buffered := bw.buffered ++ [x] }

def Flush (bw : BufferedWriter) : BufferedWriter :=
  { flushed := bw.flushed ++ bw.buffered, buffered := [] }

def GetLength (bw : BufferedWriter) : Nat := bw.flushed.length + bw.buffered.length

end BufferedWriter

variable {Client : Type} [DecidableEq Client]

/-- Where a client is in `return bw.buffered, bw.flushed`: which of the two fields it
has read, and what it read there. -/
inductive Call where
  | idle
  | called
  | holdsBuffered (buffered : List Int)
  | holdsFlushed (flushed : List Int)
  | holdsBoth (buffered flushed : List Int)
  deriving DecidableEq, Repr

inductive Event (Client : Type) where
  | append (x : Int)
  | flush
  | getLength (length : Nat)
  | call (c : Client)
  | readBuffered (c : Client)
  | readFlushed (c : Client)
  | returned (c : Client) (buffered flushed : List Int)
  deriving DecidableEq, Repr

structure World (Client : Type) where
  bw : BufferedWriter
  state : Client → Call

def World.at (w : World Client) (c : Client) (call : Call) : World Client :=
  { w with state := Function.update w.state c call }

def Call.readBuffered (bw : BufferedWriter) : Call → Option Call
  | .called => some (.holdsBuffered bw.buffered)
  | .holdsFlushed flushed => some (.holdsBoth bw.buffered flushed)
  | _ => none

def Call.readFlushed (bw : BufferedWriter) : Call → Option Call
  | .called => some (.holdsFlushed bw.flushed)
  | .holdsBuffered buffered => some (.holdsBoth buffered bw.flushed)
  | _ => none

/-- The methods under `mu` are one step; `State` takes no lock, so each of its field reads
is a step of its own. -/
inductive Step : World Client → Event Client → World Client → Prop
  | append (w : World Client) (x : Int) : Step w (.append x) { w with bw := w.bw.Append x }
  | flush (w : World Client) : Step w .flush { w with bw := w.bw.Flush }
  | getLength (w : World Client) : Step w (.getLength w.bw.GetLength) w
  | call (w : World Client) (c : Client) (idle : w.state c = .idle) :
      Step w (.call c) (w.at c .called)
  | readBuffered (w : World Client) (c : Client) {next : Call}
      (reads : (w.state c).readBuffered w.bw = some next) :
      Step w (.readBuffered c) (w.at c next)
  | readFlushed (w : World Client) (c : Client) {next : Call}
      (reads : (w.state c).readFlushed w.bw = some next) :
      Step w (.readFlushed c) (w.at c next)
  | returned (w : World Client) (c : Client) {buffered flushed : List Int}
      (holds : w.state c = .holdsBoth buffered flushed) :
      Step w (.returned c buffered flushed) (w.at c .idle)

def system : System (World Client) (Event Client) where
  start w := w.bw = NewBufferedWriter ∧ ∀ c, w.state c = .idle
  step := Step

end FizzbeeMbt.GoWriter
