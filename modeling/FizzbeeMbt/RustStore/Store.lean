import FizzbeeMbt.Lib.Deltas
import Mathlib.Order.Lattice

/-! The Rust `EmbeddedKvStore`: its two buffers, the object store it writes
segments to, and its methods cut at their await points. -/

namespace FizzbeeMbt.RustStore

open FizzbeeMbt.Maps FizzbeeMbt.Deltas

abbrev Key := String
abbrev RawValue := List UInt8
abbrev Value := Option RawValue

inductive DurabilityLevel where
  | Remote
  | Memory
  deriving DecidableEq, Repr

inductive ErrorKind where
  | Other
  | InvalidData
  deriving DecidableEq, Repr

/-- `io::Error`. -/
structure IoError where
  kind : ErrorKind
  message : String
  deriving DecidableEq, Repr

structure EmbeddedKvStore where
  buf : Map Key Value
  immutable_buf : Map Key Value

def EmbeddedKvStore.new : EmbeddedKvStore := ⟨∅, ∅⟩

/-- The objects under the prefix `data/`. A segment is the map that `serde_json`
writes and reads back. -/
abbrev ObjectStore (Path : Type) := Map Path (Map Key Value)

/-- How reading one object can end: `store.get` fails, `bytes()` fails, the bytes
do not decode, or the map is there. Failures carry the text of their error. -/
inductive Fetched where
  | notFound
  | getFailed (e : String)
  | bytesFailed (e : String)
  | decodeFailed (e : String)
  | segment (map : Map Key Value)

section Methods

variable {Path : Type}

def EmbeddedKvStore.put (kv : EmbeddedKvStore) (key : Key) (value : RawValue) :
    EmbeddedKvStore :=
  { kv with buf := kv.buf.insert key (some value) }

def EmbeddedKvStore.delete (kv : EmbeddedKvStore) (key : Key) : EmbeddedKvStore :=
  { kv with buf := kv.buf.insert key none }

def EmbeddedKvStore.freeze_internal (kv : EmbeddedKvStore) : Bool × EmbeddedKvStore :=
  let did_freeze := !kv.buf.isEmpty && kv.immutable_buf.isEmpty
  if did_freeze then (did_freeze, { buf := ∅, immutable_buf := kv.buf })
  else (did_freeze, kv)

/-- The critical section of `write_internal`: `none` is its early return, else the
content is moved out of `immutable_buf` by `mem::take`. -/
def EmbeddedKvStore.take_immutable (kv : EmbeddedKvStore) :
    Option (Map Key Value × EmbeddedKvStore) :=
  if kv.immutable_buf.isEmpty then none
  else some (kv.immutable_buf, { kv with immutable_buf := ∅ })

def EmbeddedKvStore.clear_immutable (kv : EmbeddedKvStore) : EmbeddedKvStore :=
  { kv with immutable_buf := ∅ }

def read_segment (fetched : Fetched) : Except IoError (Map Key Value) :=
  match fetched with
  | .segment map => .ok map
  | .bytesFailed e => .error ⟨.Other, "Failed to get bytes: " ++ e⟩
  | .decodeFailed e => .error ⟨.InvalidData, "Deserialization error: " ++ e⟩
  | .notFound => .ok ∅
  | .getFailed e => .error ⟨.Other, "ObjectStore get error: " ++ e⟩

/-- One pass of the loop of `get`; `none` moves on to the next segment. -/
def look_in_segment (fetched : Fetched) (key : Key) : Option (Except IoError Value) :=
  match read_segment fetched with
  | .error e => some (.error e)
  | .ok data => (data.lookup key).map .ok

/-- The loop of `get` over the reversed listing. -/
def scan_segments (fetch : Path → Fetched) (key : Key) : List Path → Except IoError Value
  | [] => .ok none
  | path :: rest =>
      match look_in_segment (fetch path) key with
      | some answer => answer
      | none => scan_segments fetch key rest

/-- `get` after its lookups in the buffers, over a listing or the error of `list`. -/
def get_listed (listing : Except String (List Path)) (fetch : Path → Fetched) (key : Key) :
    Except IoError Value :=
  match listing with
  | .error e => .error ⟨.Other, "Failed to list objects: " ++ e⟩
  | .ok objects => scan_segments fetch key objects.reverse

def EmbeddedKvStore.get (kv : EmbeddedKvStore) (listing : Except String (List Path))
    (fetch : Path → Fetched) (key : Key) (level : DurabilityLevel) : Except IoError Value :=
  match level with
  | .Remote => get_listed listing fetch key
  | .Memory =>
      match kv.buf.lookup key with
      | some value => .ok value
      | none =>
          match kv.immutable_buf.lookup key with
          | some value => .ok value
          | none => get_listed listing fetch key

variable [LinearOrder Path]

/-- `flush` as one call. `filename` is the path it draws when there is something to
take, `put_result` what the `put` of the object store returns. -/
def EmbeddedKvStore.flush (kv : EmbeddedKvStore) (objects : ObjectStore Path) (filename : Path)
    (put_result : Except String Unit) :
    Except IoError Unit × EmbeddedKvStore × ObjectStore Path :=
  match kv.freeze_internal.2.take_immutable with
  | none => (.ok (), kv.freeze_internal.2.clear_immutable, objects)
  | some (content, taken) =>
      match put_result with
      | .error e => (.error ⟨.Other, "ObjectStore put error: " ++ e⟩, taken, objects)
      | .ok () => (.ok (), taken.clear_immutable, objects.insert filename content)

/-- Reading an object of a store that does not fail. -/
def fetch (objects : ObjectStore Path) (path : Path) : Fetched :=
  match objects.lookup path with
  | some map => .segment map
  | none => .notFound

/-- The contract of every `ObjectStore`: each object is listed exactly once. -/
def Lists (objects : ObjectStore Path) (listing : List Path) : Prop :=
  listing.Perm objects.keys

/-- A store that lists its objects in ascending path order. -/
def ListsAscending (objects : ObjectStore Path) (listing : List Path) : Prop :=
  Lists objects listing ∧ listing.Pairwise (· < ·)

end Methods

section Buffers

theorem freeze_kept (kv : EmbeddedKvStore) (kept : kv.freeze_internal.1 = false) :
    kv.freeze_internal.2 = kv := by
  by_cases did : (!kv.buf.isEmpty && kv.immutable_buf.isEmpty) = true
  · simp [EmbeddedKvStore.freeze_internal, did] at kept
  · simp [EmbeddedKvStore.freeze_internal, did]

theorem freeze_moved (kv : EmbeddedKvStore) (did_freeze : kv.freeze_internal.1 = true) :
    kv.freeze_internal.2 = { buf := ∅, immutable_buf := kv.buf } ∧
      kv.buf.isEmpty = false ∧ kv.immutable_buf.isEmpty = true := by
  by_cases did : (!kv.buf.isEmpty && kv.immutable_buf.isEmpty) = true
  · refine ⟨by simp [EmbeddedKvStore.freeze_internal, did], ?_⟩
    simpa using did
  · simp [EmbeddedKvStore.freeze_internal, did] at did_freeze

theorem take_moved (kv kv' : EmbeddedKvStore) (content : Map Key Value)
    (took : kv.take_immutable = some (content, kv')) :
    content = kv.immutable_buf ∧ kv' = { kv with immutable_buf := ∅ } ∧
      content.isEmpty = false := by
  unfold EmbeddedKvStore.take_immutable at took
  split at took
  · cases took
  · next filled =>
      simp only [Option.some.injEq, Prod.mk.injEq] at took
      obtain ⟨rfl, rfl⟩ := took
      exact ⟨rfl, rfl, by simpa using filled⟩

theorem take_none (kv : EmbeddedKvStore) (nothing : kv.take_immutable = none) :
    kv.immutable_buf.isEmpty = true := by
  unfold EmbeddedKvStore.take_immutable at nothing
  split at nothing
  · next empty => exact empty
  · cases nothing

theorem clear_kept (kv : EmbeddedKvStore) (empty : kv.immutable_buf.isEmpty = true) :
    kv.clear_immutable = kv := by
  obtain ⟨buf, immutable_buf⟩ := kv
  have cleared : immutable_buf = ∅ := AList.ext (List.isEmpty_iff.mp empty)
  subst cleared
  rfl

end Buffers

section Segments

variable {Path : Type} [LinearOrder Path]

def segmentTable (objects : ObjectStore Path) (path : Path) : Table Key RawValue :=
  fun key => (objects.lookup path).bind fun map => map.lookup key

theorem mem_of_segmentTable (objects : ObjectStore Path) (path : Path) (key : Key)
    (held : segmentTable objects path key ≠ none) : path ∈ objects.keys := by
  by_contra outside
  apply held
  have absent : objects.lookup path = none :=
    AList.lookup_eq_none.mpr fun member => outside (AList.mem_keys.mp member)
  simp [segmentTable, absent]

theorem look_in_segment_fetch (objects : ObjectStore Path) (path : Path) (key : Key) :
    look_in_segment (fetch objects path) key =
      (segmentTable objects path key).map Except.ok := by
  unfold look_in_segment fetch segmentTable
  cases objects.lookup path with
  | none => simp [read_segment]
  | some map => rfl

/-- On a store that does not fail the loop answers like its tables. -/
theorem scan_segments_eq_scan (objects : ObjectStore Path) (key : Key) (paths : List Path) :
    scan_segments (fetch objects) key paths =
      .ok (scan (paths.map (segmentTable objects)) key).join := by
  induction paths with
  | nil => rfl
  | cons path rest ih =>
      simp only [scan_segments, List.map_cons, scan, look_in_segment_fetch]
      cases segmentTable objects path key with
      | none =>
          rw [Option.none_or]
          exact ih
      | some value => rfl

/-- An object under a new path leaves the other tables alone. -/
theorem segmentTable_insert (objects : ObjectStore Path) (path : Path)
    (content : Map Key Value) (fresh : path ∉ objects.keys) (paths : List Path)
    (old : ∀ p ∈ paths, p ∈ objects.keys) :
    paths.map (segmentTable (objects.insert path content)) =
      paths.map (segmentTable objects) := by
  apply List.map_congr_left
  intro p member
  have differ : p ≠ path := by
    rintro rfl
    exact fresh (old p member)
  funext key
  simp only [segmentTable, AList.lookup_insert_ne differ]

theorem segmentTable_self (objects : ObjectStore Path) (path : Path)
    (content : Map Key Value) :
    segmentTable (objects.insert path content) path = fun key => content.lookup key := by
  funext key
  simp [segmentTable]

theorem keys_insert_fresh (objects : ObjectStore Path) (path : Path)
    (content : Map Key Value) (fresh : path ∉ objects.keys) :
    (objects.insert path content).keys = path :: objects.keys := by
  rw [AList.keys_insert, List.erase_of_not_mem fresh]

/-- Only one listing is ascending. -/
theorem listing_unique (objects : ObjectStore Path) (listing : List Path)
    (newestFirst : objects.keys.Pairwise (· > ·)) (lists : ListsAscending objects listing) :
    listing.reverse = objects.keys := by
  have reversed : listing.reverse.Perm objects.keys := (List.reverse_perm listing).trans lists.1
  have descending : listing.reverse.Pairwise (· > ·) := List.pairwise_reverse.mpr lists.2
  apply List.Perm.eq_of_pairwise _ descending newestFirst reversed
  intro a b _ _ below above
  exact absurd below (lt_asymm above)

end Segments

end FizzbeeMbt.RustStore
