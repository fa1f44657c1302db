import FizzbeeMbt.GoStore.Json
import FizzbeeMbt.Lib.Deltas
import FizzbeeMbt.Lib.Digits

/-! The Go `KVStore`: its fields, and its methods as the code runs them when no
other call is in progress. -/

namespace FizzbeeMbt.GoStore

open FizzbeeMbt.Maps FizzbeeMbt.Deltas

/-- `interface{}` values of the skip list: `none` is the nil a Delete stores, nil
and empty byte slices are one value. -/
abbrev SkipList := Map Bytes (Option Bytes)

inductive DurabilityLevel where
  | DurabilityRemote
  | DurabilityMemory
  deriving DecidableEq, Repr

structure ReadOptions where
  durability : DurabilityLevel
  deriving DecidableEq, Repr

/-- The errors of Get; `indexOutOfRange` is the panic of `val[0]` on an empty entry. -/
inductive GetError where
  | KEY_NOT_FOUND
  | unmarshal
  | indexOutOfRange
  deriving DecidableEq, Repr

inductive BlobError where
  | notFound
  | ioError
  deriving DecidableEq, Repr

abbrev Bucket := String → Option Data

def emptyBucket : Bucket := fun _ => none

def Bucket.WriteAll (bucket : Bucket) (blobKey : String) (data : Data) : Bucket :=
  Function.update bucket blobKey (some data)

def Bucket.ReadAll (bucket : Bucket) (blobKey : String) : Except BlobError Data :=
  match bucket blobKey with
  | some data => .ok data
  | none => .error .notFound

structure KVStore where
  buffer : SkipList
  flushID : Nat
  immutableBuf : Option SkipList

/-- `NewKVStoreFromBucket`: a Go struct starts from zero values. -/
def NewKVStore : KVStore := ⟨∅, 0, none⟩

/-- `fmt.Sprintf("data/%04d.json", i)`. -/
def blobKey (i : Nat) : String :=
  "data/" ++ String.ofList (List.replicate (4 - (Nat.toDigits 10 i).length) '0' ++
    Nat.toDigits 10 i) ++ ".json"

def durabilityOf (opts : Option ReadOptions) : DurabilityLevel :=
  match opts with
  | some opts => opts.durability
  | none => .DurabilityRemote

def KVStore.Put (kv : KVStore) (key value : Bytes) : KVStore :=
  { kv with buffer := kv.buffer.insert key (some value) }

def KVStore.Delete (kv : KVStore) (key : Bytes) : KVStore :=
  { kv with buffer := kv.buffer.insert key none }

/-- An entry of a frozen buffer or a segment: tag byte 0 marks a deletion, tag
byte 1 stands before the value. -/
def encodeEntry (value : Option Bytes) : Bytes :=
  match value with
  | none => [0]
  | some value => 1 :: value

def decodeEntry (val : Bytes) : Except GetError Bytes :=
  match val with
  | [] => .error .indexOutOfRange
  | tag :: rest => if tag = 0 then .error .KEY_NOT_FOUND else .ok rest

/-- The lookups of a `DurabilityMemory` Get in `buffer` and `immutableBuf`. -/
def KVStore.getMemory (kv : KVStore) (key : Bytes) : Option (Except GetError Bytes) :=
  match kv.buffer.lookup key with
  | some none => some (.error .KEY_NOT_FOUND)
  | some (some val) => some (.ok val)
  | none =>
      match kv.immutableBuf with
      | none => none
      | some immutableBuf =>
          match immutableBuf.lookup key with
          | none => none
          | some none => some (.error .KEY_NOT_FOUND)
          | some (some val) => some (decodeEntry val)

/-- One pass of the blob loop of Get; `none` moves on to the next older blob. -/
def scanBlob (data : Except BlobError Data) (key : Bytes) : Option (Except GetError Bytes) :=
  match data with
  | .error _ => none
  | .ok data =>
      match Unmarshal data with
      | none => some (.error .unmarshal)
      | some kvPairs => (kvPairs.lookup key).map decodeEntry

/-- The blob loop of Get, from segment `i` down to 1. -/
def scanBlobs (readBlob : String → Except BlobError Data) (key : Bytes) :
    Nat → Except GetError Bytes
  | 0 => .error .KEY_NOT_FOUND
  | i + 1 =>
      match scanBlob (readBlob (blobKey (i + 1))) key with
      | some answer => answer
      | none => scanBlobs readBlob key i

def KVStore.Get (kv : KVStore) (readBlob : String → Except BlobError Data) (key : Bytes)
    (opts : Option ReadOptions) : Except GetError Bytes :=
  match durabilityOf opts with
  | .DurabilityRemote => scanBlobs readBlob key kv.flushID
  | .DurabilityMemory =>
      match kv.getMemory key with
      | some answer => answer
      | none => scanBlobs readBlob key kv.flushID

/-- The critical section of Flush on a non-empty buffer: the snapshot `bufMap` to
be written and the store with that snapshot frozen. -/
def KVStore.freeze (kv : KVStore) : Map Bytes Bytes × KVStore :=
  let bufMap := kv.buffer.rebuild encodeEntry
  (bufMap,
    { buffer := ∅
      flushID := kv.flushID + 1
      immutableBuf := some (bufMap.rebuild some) })

def KVStore.clearImmutable (kv : KVStore) : KVStore := { kv with immutableBuf := none }

/-- Flush as one call; `writeFails` says whether its `writeBlob` returns an error,
which is also what Flush then returns. -/
def KVStore.Flush (kv : KVStore) (bucket : Bucket) (writeFails : Bool) :
    Except BlobError Unit × KVStore × Bucket :=
  if kv.buffer.isEmpty then (.ok (), kv, bucket) else
  let (bufMap, frozen) := kv.freeze
  if writeFails then (.error .ioError, frozen, bucket) else
  (.ok (), frozen.clearImmutable, bucket.WriteAll (blobKey frozen.flushID) (Marshal bufMap))

section BlobKeys

theorem blobKey_injective : Function.Injective blobKey :=
  Digits.padded_name_injective 4 "data/" ".json"

example : blobKey 7 = "data/0007.json" ∧ blobKey 12345 = "data/12345.json" := by decide

@[simp] theorem blobKey_inj (i j : Nat) : blobKey i = blobKey j ↔ i = j :=
  blobKey_injective.eq_iff

@[simp] theorem readAll_writeAll_same (bucket : Bucket) (i : Nat) (data : Data) :
    (bucket.WriteAll (blobKey i) data).ReadAll (blobKey i) = .ok data := by
  simp [Bucket.ReadAll, Bucket.WriteAll]

theorem readAll_writeAll_other (bucket : Bucket) (i j : Nat) (data : Data) (differ : j ≠ i) :
    (bucket.WriteAll (blobKey i) data).ReadAll (blobKey j) = bucket.ReadAll (blobKey j) := by
  simp [Bucket.ReadAll, Bucket.WriteAll, differ]

end BlobKeys

section Encodings

/-- What Get reports of a looked-up write. -/
def answerOf (found : Option (Option Bytes)) : Except GetError Bytes :=
  match found with
  | some (some value) => .ok value
  | _ => .error .KEY_NOT_FOUND

theorem decodeEntry_encodeEntry (value : Option Bytes) :
    decodeEntry (encodeEntry value) = answerOf (some value) := by
  cases value <;> rfl

/-- A snapshot holds the tagged entries of a table. -/
def Encodes (bufMap : Map Bytes Bytes) (table : Table Bytes Bytes) : Prop :=
  ∀ k, bufMap.lookup k = (table k).map encodeEntry

def KVStore.live (kv : KVStore) : Table Bytes Bytes := fun k => kv.buffer.lookup k

theorem freeze_encodes (kv : KVStore) : Encodes kv.freeze.1 kv.live := by
  intro k
  exact lookup_rebuild encodeEntry kv.buffer k

theorem getMemory_unfrozen (kv : KVStore) (k : Bytes) (thawed : kv.immutableBuf = none) :
    kv.getMemory k = (kv.live k).map fun value => answerOf (some value) := by
  unfold KVStore.getMemory KVStore.live
  rw [thawed]
  rcases kv.buffer.lookup k with _ | _ | value <;> rfl

/-- A Memory Get answers from the buffer or else from the tagged frozen entries. -/
theorem getMemory_frozen (kv : KVStore) (bufMap : Map Bytes Bytes) (table : Table Bytes Bytes)
    (k : Bytes) (frozen : kv.immutableBuf = some (bufMap.rebuild some))
    (encodes : Encodes bufMap table) :
    kv.getMemory k = ((kv.live k).or (table k)).map fun value => answerOf (some value) := by
  unfold KVStore.getMemory KVStore.live
  rw [frozen]
  rcases kv.buffer.lookup k with _ | _ | value
  · simp only [lookup_rebuild, encodes k, Option.none_or]
    cases table k with
    | none => rfl
    | some value => exact congrArg some (decodeEntry_encodeEntry value)
  · rfl
  · rfl

/-- A written segment answers for the keys of its table and no others. -/
theorem scanBlob_marshal (bufMap : Map Bytes Bytes) (table : Table Bytes Bytes) (k : Bytes)
    (encodes : Encodes bufMap table) (valid : ∀ k, table k ≠ none → Utf8Valid k) :
    scanBlob (.ok (Marshal bufMap)) k = (table k).map fun value => answerOf (some value) := by
  have keys : ∀ k, bufMap.lookup k ≠ none → Utf8Valid k := by
    intro k present
    apply valid k
    intro absent
    exact present (by simp [encodes k, absent])
  obtain ⟨decoded, unmarshalled, same⟩ := unmarshal_marshal bufMap keys
  simp only [scanBlob, unmarshalled, same k, encodes k, Option.map_map, Function.comp_def,
    decodeEntry_encodeEntry]

theorem scanBlobs_congr (left right : String → Except BlobError Data) (k : Bytes) (n : Nat)
    (same : ∀ i, i ≤ n → left (blobKey i) = right (blobKey i)) :
    scanBlobs left k n = scanBlobs right k n := by
  induction n with
  | zero => rfl
  | succ n ih =>
      simp only [scanBlobs]
      rw [same (n + 1) (Nat.le_refl _), ih (fun i bound => same i (Nat.le_succ_of_le bound))]

theorem scanBlobs_absent (readBlob : String → Except BlobError Data) (k : Bytes) (n : Nat)
    (absent : readBlob (blobKey n) = .error .notFound) :
    scanBlobs readBlob k n = scanBlobs readBlob k (n - 1) := by
  cases n with
  | zero => rfl
  | succ n => simp [scanBlobs, absent, scanBlob]

/-- A segment written under the top number overlays its table on the scan. -/
theorem scanBlobs_top (bucket : Bucket) (n : Nat) (bufMap : Map Bytes Bytes)
    (table : Table Bytes Bytes) (k : Bytes) (encodes : Encodes bufMap table)
    (valid : ∀ k, table k ≠ none → Utf8Valid k) :
    scanBlobs (bucket.WriteAll (blobKey (n + 1)) (Marshal bufMap)).ReadAll k (n + 1) =
      match table k with
      | some value => answerOf (some value)
      | none => scanBlobs bucket.ReadAll k n := by
  have below : scanBlobs (bucket.WriteAll (blobKey (n + 1)) (Marshal bufMap)).ReadAll k n =
      scanBlobs bucket.ReadAll k n := by
    apply scanBlobs_congr
    intro i bound
    exact readAll_writeAll_other bucket (n + 1) i _ (by omega)
  simp only [scanBlobs, readAll_writeAll_same, scanBlob_marshal bufMap table k encodes valid,
    below]
  cases table k <;> rfl

/-- The segment under the counter, when it was absent, changes nothing below it. -/
theorem scanBlobs_written (bucket : Bucket) (n : Nat) (bufMap : Map Bytes Bytes)
    (table : Table Bytes Bytes) (k : Bytes) (positive : 0 < n)
    (absent : bucket.ReadAll (blobKey n) = .error .notFound)
    (encodes : Encodes bufMap table) (valid : ∀ k, table k ≠ none → Utf8Valid k) :
    scanBlobs (bucket.WriteAll (blobKey n) (Marshal bufMap)).ReadAll k n =
      match table k with
      | some value => answerOf (some value)
      | none => scanBlobs bucket.ReadAll k n := by
  obtain ⟨m, rfl⟩ := Nat.exists_eq_succ_of_ne_zero (Nat.pos_iff_ne_zero.mp positive)
  rw [scanBlobs_absent bucket.ReadAll k _ absent]
  exact scanBlobs_top bucket m bufMap table k encodes valid

end Encodings

end FizzbeeMbt.GoStore
