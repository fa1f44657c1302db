import FizzbeeMbt.Lib.Digits
import FizzbeeMbt.Lib.Maps
import FizzbeeMbt.Lib.Runs

/-! The specification `embedded_kvstore.fizz`: the roles Writer and Storage, and the
interleavings of their actions. -/

namespace FizzbeeMbt.FizzStore

open FizzbeeMbt.Maps FizzbeeMbt.Runs

/-- Repeating a string a negative number of times gives the empty string. -/
def format_with_leading_zeros (n width : Nat) : String :=
  String.ofList (Digits.zeroPadded width n)

def filename (i : Nat) : String := "data/" ++ format_with_leading_zeros i 4 ++ ".sst"

theorem filename_injective : Function.Injective filename :=
  Digits.padded_name_injective 4 "data/" ".sst"

variable {Key Value : Type} [DecidableEq Key]

structure Storage (Key Value : Type) where
  data : Map String (Map Key Value)

def Storage.Write (store : Storage Key Value) (name : String) (content : Map Key Value) :
    Storage Key Value :=
  { data := store.data.insert name content }

def Storage.Read (store : Storage Key Value) (name : String) : Map Key Value :=
  (store.data.lookup name).getD ∅

/-- The loop of `get` over the files from number `i` down to 1. -/
def Storage.scan (store : Storage Key Value) (k : Key) : Nat → Option Value
  | 0 => none
  | i + 1 =>
      let data := store.Read (filename (i + 1))
      match data.isEmpty, data.lookup k with
      | false, some v => some v
      | _, _ => store.scan k i

structure Writer (Key Value : Type) where
  buf : Map Key Value
  immutable_buf : Map Key Value
  next_index : Nat

def Writer.Init : Writer Key Value := ⟨∅, ∅, 1⟩

def Writer.Put (writer : Writer Key Value) (k : Key) (v : Value) : Writer Key Value :=
  { writer with buf := writer.buf.insert k v }

/-- `get`; the value stored for a deletion is `NOT_FOUND` itself. -/
def Writer.get (NOT_FOUND : Value) (writer : Writer Key Value) (store : Storage Key Value)
    (k : Key) (dirty_read : Bool) : Value :=
  let buffered := if dirty_read then (writer.buf.lookup k).or (writer.immutable_buf.lookup k)
    else none
  match buffered with
  | some v => v
  | none => (store.scan k (writer.next_index - 1)).getD NOT_FOUND

def Writer.freeze (writer : Writer Key Value) : Writer Key Value :=
  if writer.buf.isEmpty || !writer.immutable_buf.isEmpty then writer
  else { writer with immutable_buf := writer.buf, buf := ∅ }

def Writer.write (writer : Writer Key Value) (store : Storage Key Value) :
    Writer Key Value × Storage Key Value :=
  if writer.immutable_buf.isEmpty then (writer, store)
  else ({ writer with next_index := writer.next_index + 1 },
    store.Write (filename writer.next_index) writer.immutable_buf)

def Writer.clear (writer : Writer Key Value) : Writer Key Value :=
  { writer with immutable_buf := ∅ }

/-- Where the Flush in progress stands: before `freeze`, `write` or the assignment
that clears `immutable_buf`. -/
inductive FlushPoint where
  | idle
  | frozen
  | written
  deriving DecidableEq, Repr

structure State (Key Value : Type) where
  writer : Writer Key Value
  store : Storage Key Value
  _last_put : Map Key Value
  flush : FlushPoint

def Init : State Key Value := ⟨.Init, ⟨∅⟩, ∅, .idle⟩

inductive Event (Key Value : Type) where
  | put (k : Key) (v : Value)
  | got (k : Key) (dirty_read : Bool) (v : Value)
  | freeze
  | write
  | clear

/-- Any action may come between the three steps of a Flush, except another Flush. -/
inductive Step (NOT_FOUND : Value) :
    State Key Value → Event Key Value → State Key Value → Prop
  | put {s : State Key Value} (k : Key) (v : Value) :
      Step NOT_FOUND s (.put k v)
        { s with writer := s.writer.Put k v, _last_put := s._last_put.insert k v }
  | got {s : State Key Value} (k : Key) (dirty_read : Bool) :
      Step NOT_FOUND s (.got k dirty_read (s.writer.get NOT_FOUND s.store k dirty_read)) s
  | freeze {s : State Key Value} (point : s.flush = .idle) :
      Step NOT_FOUND s .freeze { s with writer := s.writer.freeze, flush := .frozen }
  | write {s : State Key Value} (point : s.flush = .frozen) :
      Step NOT_FOUND s .write
        { s with
          writer := (s.writer.write s.store).1
          store := (s.writer.write s.store).2
          flush := .written }
  | clear {s : State Key Value} (point : s.flush = .written) :
      Step NOT_FOUND s .clear { s with writer := s.writer.clear, flush := .idle }

def system (NOT_FOUND : Value) : System (State Key Value) (Event Key Value) where
  start s := s = Init
  step := Step NOT_FOUND

section Files

theorem scan_succ (store : Storage Key Value) (k : Key) (i : Nat) :
    store.scan k (i + 1) = ((store.Read (filename (i + 1))).lookup k).or (store.scan k i) := by
  simp only [Storage.scan]
  cases empty : (store.Read (filename (i + 1))).isEmpty with
  | true => rw [(isEmpty_iff _).mp empty k, Option.none_or]
  | false => cases (store.Read (filename (i + 1))).lookup k <;> rfl

omit [DecidableEq Key] in
theorem read_write_same (store : Storage Key Value) (name : String) (content : Map Key Value) :
    (store.Write name content).Read name = content := by
  simp [Storage.Read, Storage.Write]

omit [DecidableEq Key] in
theorem read_write_other (store : Storage Key Value) (name other : String)
    (content : Map Key Value) (differ : other ≠ name) :
    (store.Write name content).Read other = store.Read other := by
  simp [Storage.Read, Storage.Write, AList.lookup_insert_ne differ]

theorem scan_write_above (store : Storage Key Value) (content : Map Key Value) (k : Key)
    (i n : Nat) (below : i < n) :
    (store.Write (filename n) content).scan k i = store.scan k i := by
  induction i with
  | zero => rfl
  | succ i ih =>
      have differ : filename (i + 1) ≠ filename n :=
        fun same => absurd (filename_injective same) (Nat.ne_of_lt below)
      rw [scan_succ, scan_succ, read_write_other _ _ _ _ differ, ih (Nat.lt_of_succ_lt below)]

/-- A file written under the next number overlays its content on the scan. -/
theorem scan_write_top (store : Storage Key Value) (content : Map Key Value) (k : Key) (n : Nat) :
    (store.Write (filename (n + 1)) content).scan k (n + 1) =
      (content.lookup k).or (store.scan k n) := by
  rw [scan_succ, read_write_same, scan_write_above store content k n (n + 1) (Nat.lt_succ_self n)]

end Files

end FizzbeeMbt.FizzStore
