import FizzbeeMbt.FizzStore.DirtyRead
import FizzbeeMbt.GoStore.Runes
import FizzbeeMbt.GoStore.Session
import FizzbeeMbt.Lib.Replay
import FizzbeeMbt.Lib.Strings
import FizzbeeMbt.RustStore.Session

/-! The actions of `embedded_kvstore.fizz`, as the specification performs them one at a
time and as the test adapters perform them on the Go and the Rust store. -/

namespace FizzbeeMbt.StoreAdapters

open FizzbeeMbt.Maps FizzbeeMbt.Replay FizzbeeMbt.Strings

/-- An action of the Writer with the values its `any` statements chose. -/
inductive Action where
  | put (k v : String)
  | get (k : String) (dirty_read : Bool)
  | flush
  deriving DecidableEq, Repr

/-- The values the specification and the Rust harness pass around. -/
inductive Value where
  | None
  | Str (s : String)
  | Bool (b : Bool)
  deriving DecidableEq, Repr

def NOT_FOUND : String := "NOT_FOUND"

section Fizz

abbrev Model := FizzStore.State String String

/-- A Flush that nothing interleaves with. -/
def flushedModel (s : Model) : Model :=
  let written := s.writer.freeze.write s.store
  { s with writer := written.1.clear, store := written.2 }

def fizz : Machine Model Action Value := fun s action =>
  match action with
  | .put k v =>
      (.None, { s with writer := s.writer.Put k v, _last_put := s._last_put.insert k v })
  | .get k dirty_read => (.Str (s.writer.get NOT_FOUND s.store k dirty_read), s)
  | .flush => (.None, flushedModel s)

end Fizz

section Go

open FizzbeeMbt.GoStore

inductive GoValue where
  | nil
  | string (s : Bytes)
  | bool (b : Bool)
  deriving DecidableEq, Repr

/-- `indexOutOfRange` stands for the panics, the others for returned errors. -/
inductive GoError where
  | ErrInvalidArg
  | indexOutOfRange
  | blob (e : BlobError)
  deriving DecidableEq, Repr

/-- A `WriterRoleAdapter` with the bucket of its store. -/
abbrev GoAdapter := KVStore × Bucket

abbrev GoResult := Except GoError GoValue

/-- `args[i].Value.(string)`. -/
def stringArg (args : List GoValue) (i : Nat) : Except GoError Bytes :=
  match args[i]? with
  | some (.string s) => .ok s
  | some _ => .error .ErrInvalidArg
  | none => .error .indexOutOfRange

/-- `args[i].Value.(bool)`. -/
def boolArg (args : List GoValue) (i : Nat) : Except GoError Bool :=
  match args[i]? with
  | some (.bool b) => .ok b
  | some _ => .error .ErrInvalidArg
  | none => .error .indexOutOfRange

def ActionPut (a : GoAdapter) (args : List GoValue) : GoResult × GoAdapter :=
  match stringArg args 0 with
  | .error e => (.error e, a)
  | .ok key =>
      match stringArg args 1 with
      | .error e => (.error e, a)
      | .ok val =>
          if val = utf8 "NOT_FOUND" then (.ok .nil, (a.1.Delete key, a.2))
          else (.ok .nil, (a.1.Put key val, a.2))

/-- Every error of Get is reported as the absence of the key. -/
def getResult (answer : Except GetError Bytes) : GoResult :=
  match answer with
  | .ok val => .ok (.string val)
  | .error .indexOutOfRange => .error .indexOutOfRange
  | .error _ => .ok (.string (utf8 "NOT_FOUND"))

def ActionGet (a : GoAdapter) (args : List GoValue) : GoResult × GoAdapter :=
  match stringArg args 0 with
  | .error e => (.error e, a)
  | .ok key =>
      match boolArg args 1 with
      | .error e => (.error e, a)
      | .ok dirtyRead =>
          let readOptions : ReadOptions :=
            if dirtyRead then ⟨.DurabilityMemory⟩ else ⟨.DurabilityRemote⟩
          (getResult (a.1.Get a.2.ReadAll key (some readOptions)), a)

def ActionFlush (a : GoAdapter) : GoResult × GoAdapter :=
  match a.1.Flush a.2 false with
  | (.ok (), next) => (.ok .nil, next)
  | (.error e, next) => (.error (.blob e), next)

/-- A choice of the specification as the harness passes it to Go. -/
def GoValue.of : Value → GoValue
  | .None => .nil
  | .Str s => .string (utf8 s)
  | .Bool b => .bool b

def go : Machine GoAdapter Action GoResult := fun a action =>
  match action with
  | .put k v => ActionPut a [.of (.Str k), .of (.Str v)]
  | .get k dirty_read => ActionGet a [.of (.Str k), .of (.Bool dirty_read)]
  | .flush => ActionFlush a

/-- `Init` of the model adapter: a new store on a bucket of its own. -/
def goInit : GoAdapter := (NewKVStore, emptyBucket)

end Go

section Rust

open FizzbeeMbt.RustStore

inductive MbtError where
  | Other (message : String)
  deriving DecidableEq, Repr

variable {Path : Type} [LinearOrder Path]

abbrev RustResult := Except MbtError Value

def action_put (names : Nat → Path) (a : Session Path) (args : List Value) :
    RustResult × Session Path :=
  match args with
  | [.Str key, .Str value_str] =>
      if value_str = "NOT_FOUND" then (.ok .None, a.apply names (.delete key))
      else (.ok .None, a.apply names (.put key (utf8 value_str)))
  | [.Str _, _] => (.error (.Other "Expected string for value"), a)
  | [_, _] => (.error (.Other "Expected string for key"), a)
  | _ => (.error (.Other "Expected 2 arguments for put"), a)

/-- `list` is what the object store lists under the prefix. -/
def action_get (list : ObjectStore Path → List Path) (a : Session Path) (args : List Value) :
    RustResult :=
  match args with
  | [.Str key, .Bool is_dirty_read] =>
      let level : DurabilityLevel := if is_dirty_read then .Memory else .Remote
      match a.store.get (.ok (list a.objects)) (fetch a.objects) key level with
      | .error e => .error (.Other ("KvStore get failed: " ++ e.message))
      | .ok (some v) =>
          match ofUtf8 v with
          | some s => .ok (.Str s)
          | none => .error (.Other "Failed to convert Vec<u8> to String")
      | .ok none => .ok (.Str "NOT_FOUND")
  | [.Str _, _] => .error (.Other "Expected boolean for durability")
  | [_, _] => .error (.Other "Expected string for key")
  | _ => .error (.Other "Expected 2 arguments for get")

def action_flush (names : Nat → Path) (a : Session Path) : RustResult × Session Path :=
  match (a.store.flush a.objects (names a.ulids) (.ok ())).1 with
  | .error e => (.error (.Other ("KvStore flush failed: " ++ e.message)), a.apply names .flush)
  | .ok () => (.ok .None, a.apply names .flush)

def rust (names : Nat → Path) (list : ObjectStore Path → List Path) :
    Machine (Session Path) Action RustResult := fun a action =>
  match action with
  | .put k v => action_put names a [.Str k, .Str v]
  | .get k dirty_read => (action_get list a [.Str k, .Bool dirty_read], a)
  | .flush => action_flush names a

def rustInit : Session Path := ⟨.new, ∅, 0⟩

end Rust

end FizzbeeMbt.StoreAdapters
