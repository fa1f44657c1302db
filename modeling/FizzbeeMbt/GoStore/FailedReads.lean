import FizzbeeMbt.GoStore.AppendOnly
import FizzbeeMbt.GoStore.Encoding
import FizzbeeMbt.GoStore.Session

/-! Gets of the Go store some of whose blob reads fail. -/

namespace FizzbeeMbt.GoStore

open FizzbeeMbt.Maps FizzbeeMbt.Deltas FizzbeeMbt.Runs

section Segments

/-- A map of tagged entries, as a freeze makes them. -/
def Tagged (bufMap : Map Bytes Bytes) : Prop :=
  ∀ k val, bufMap.lookup k = some val → ∃ value, val = encodeEntry value

theorem freeze_tagged (kv : KVStore) : Tagged kv.freeze.1 := by
  intro k val found
  rw [freeze_encodes kv k] at found
  obtain ⟨value, -, rfl⟩ := Option.map_eq_some_iff.mp found
  exact ⟨value, rfl⟩

/-- The bucket of a store holds nothing but frozen maps. -/
structure Written {Client : Type} (s : State Client) : Prop where
  pending : ∀ c flushID bufMap, s.thread c = .flushWriting flushID bufMap → Tagged bufMap
  blobs : ∀ key data, s.bucket key = some data → ∃ bufMap, Tagged bufMap ∧ data = Marshal bufMap

variable {Client : Type} [DecidableEq Client]

theorem written_step {s s' : State Client} {event : Event Client} (written : Written s)
    (taken : Step s event s') : Written s' := by
  have others : ∀ c flushID bufMap, c ≠ actor event →
      s'.thread c = .flushWriting flushID bufMap → Tagged bufMap := by
    intro c flushID bufMap differ writing
    rw [step_thread_other taken c differ] at writing
    exact written.pending c flushID bufMap writing
  cases step_numbered taken with
  | quiet _ _ _ _ kept waiting =>
      refine ⟨?_, kept ▸ written.blobs⟩
      intro c flushID bufMap writing
      refine others c flushID bufMap ?_ writing
      rintro rfl
      exact waiting _ _ writing
  | freezes c locked _ kept moved =>
      refine ⟨?_, kept ▸ written.blobs⟩
      intro c' flushID bufMap writing
      by_cases own : c' = c
      · subst own
        rw [moved] at writing
        obtain ⟨-, rfl⟩ := Thread.flushWriting.inj writing
        exact freeze_tagged s.store
      · exact others c' flushID bufMap own writing
  | fails c _ _ _ _ kept moved =>
      refine ⟨?_, kept ▸ written.blobs⟩
      intro c' flushID bufMap writing
      refine others c' flushID bufMap ?_ writing
      rintro rfl
      exact absurd (moved.symm.trans writing) (by simp)
  | writes c flushID bufMap writing _ landed moved =>
      constructor
      · intro c' flushID' bufMap' writing'
        refine others c' flushID' bufMap' ?_ writing'
        rintro rfl
        exact absurd (moved.symm.trans writing') (by simp)
      · intro key data held
        by_cases name : key = blobKey flushID
        · subst name
          obtain rfl : Marshal bufMap = data := by simpa [landed, Bucket.WriteAll] using held
          exact ⟨bufMap, written.pending c flushID bufMap writing, rfl⟩
        · exact written.blobs key data (by simpa [landed, Bucket.WriteAll, name] using held)

theorem written_run {admits : Trace Client → State Client → Event Client → Prop}
    {trace : Trace Client} {s : State Client} (run : Run system admits trace s) : Written s := by
  apply run.invariant (fun _ s => Written s)
  · intro s start
    subst start
    constructor
    · intro c flushID bufMap writing
      cases writing
    · intro key data held
      cases held
  · intro _ _ _ _ _ written _ taken
    exact written_step written taken

end Segments

section Versions

/-- A bucket on which `fails` picks the blobs whose reads end in an error other than
that of a missing blob. -/
def failing (bucket : Bucket) (fails : String → Bool) (blobKey : String) :
    Except BlobError Data :=
  match bucket blobKey with
  | none => .error .notFound
  | some data => if fails blobKey then .error .ioError else .ok data

/-- The write that an entry of a segment records. -/
def entryWrite (val : Bytes) : Option Bytes :=
  match decodeEntry val with
  | .ok value => some value
  | .error _ => none

/-- What segment `i` records of a key, `none` where it has no entry. -/
def entryOf (bucket : Bucket) (key : Bytes) (i : Nat) : Option (Option Bytes) :=
  ((bucket (blobKey i)).bind Unmarshal).bind fun kvPairs => (kvPairs.lookup key).map entryWrite

/-- The segments from `i` down to 1 that have an entry for a key, with what they record. -/
def versions (bucket : Bucket) (key : Bytes) : Nat → List (String × Option Bytes)
  | 0 => []
  | i + 1 =>
      match entryOf bucket key (i + 1) with
      | some value => (blobKey (i + 1), value) :: versions bucket key i
      | none => versions bucket key i

/-- The newest version of a key in a segment that can be read, `none` being a deletion. -/
def newestReadable (fails : String → Bool) (versions : List (String × Option Bytes)) :
    Option Bytes :=
  match versions.find? fun version => !fails version.1 with
  | some version => version.2
  | none => none

/-- The newest segment with the key can be read, or the one a scan falls back to
records the same. -/
def Shielded (fails : String → Bool) : List (String × Option Bytes) → Prop
  | [] => True
  | newest :: older => fails newest.1 = false ∨ newestReadable fails older = newest.2

theorem shielded_iff (fails : String → Bool) (versions : List (String × Option Bytes)) :
    Shielded fails versions ↔
      newestReadable fails versions = newestReadable (fun _ => false) versions := by
  cases versions with
  | nil => exact ⟨fun _ => rfl, fun _ => trivial⟩
  | cons newest older =>
      cases unreadable : fails newest.1 with
      | false => simp [Shielded, newestReadable, unreadable]
      | true => simp [Shielded, newestReadable, unreadable]

theorem entryWrite_encodeEntry (value : Option Bytes) : entryWrite (encodeEntry value) = value := by
  cases value <;> rfl

/-- What one pass of the loop makes of a blob that is read. -/
theorem scanBlob_entryOf {bucket : Bucket} {i : Nat} {data : Data} {bufMap : Map Bytes Bytes}
    (key : Bytes) (held : bucket (blobKey i) = some data) (tagged : Tagged bufMap)
    (frozen : data = Marshal bufMap) :
    scanBlob (.ok data) key = (entryOf bucket key i).map fun value => answerOf (some value) := by
  obtain ⟨decoded, read, -, named⟩ := lookup_unmarshal bufMap
  rw [← frozen] at read
  simp only [scanBlob, entryOf, held, Option.bind_some, read]
  cases found : decoded.lookup key with
  | none => rfl
  | some val =>
      obtain ⟨k, -, looked, -⟩ := (named key val).mp found
      obtain ⟨value, rfl⟩ := tagged k val looked
      simp only [Option.map_some, decodeEntry_encodeEntry, entryWrite_encodeEntry]

/-- A scan answers from the newest segment with the key that it can read, whatever
that segment is. -/
theorem scanBlobs_failing {Client : Type} {s : State Client} (written : Written s)
    (fails : String → Bool) (key : Bytes) (n : Nat) :
    scanBlobs (failing s.bucket fails) key n =
      answerOf (some (newestReadable fails (versions s.bucket key n))) := by
  induction n with
  | zero => rfl
  | succ n ih =>
      simp only [scanBlobs, versions]
      cases held : s.bucket (blobKey (n + 1)) with
      | none => simpa [failing, held, scanBlob, entryOf] using ih
      | some data =>
          obtain ⟨bufMap, tagged, frozen⟩ := written.blobs _ data held
          have look := scanBlob_entryOf key held tagged frozen
          cases unreadable : fails (blobKey (n + 1)) with
          | true =>
              simp only [failing, held, unreadable, if_true, scanBlob, ih]
              cases entryOf s.bucket key (n + 1) with
              | none => rfl
              | some value => simp [newestReadable, unreadable]
          | false =>
              simp only [failing, held, unreadable, Bool.false_eq_true, if_false, look]
              cases entryOf s.bucket key (n + 1) with
              | none => exact ih
              | some value => simp [newestReadable, unreadable]

theorem failing_never (bucket : Bucket) : failing bucket (fun _ => false) = bucket.ReadAll := by
  funext blobKey
  unfold failing Bucket.ReadAll
  cases bucket blobKey <;> rfl

end Versions

section Gets

/-- One of the buffers of the store has an entry for the key. -/
def KVStore.Buffers (kv : KVStore) (key : Bytes) : Prop :=
  kv.buffer.lookup key ≠ none ∨
    ∃ immutableBuf, kv.immutableBuf = some immutableBuf ∧ immutableBuf.lookup key ≠ none

theorem getMemory_eq_none_iff (kv : KVStore) (key : Bytes) :
    kv.getMemory key = none ↔ ¬kv.Buffers key := by
  unfold KVStore.getMemory KVStore.Buffers
  cases live : kv.buffer.lookup key with
  | some value => cases value <;> simp
  | none =>
      cases frozen : kv.immutableBuf with
      | none => simp
      | some immutableBuf =>
          cases held : immutableBuf.lookup key with
          | none => simp [held]
          | some value => cases value <;> simp [held]

/-- A Get under failing reads that returns an error of its own or what it returns when
every read succeeds. -/
def NotMisled (kv : KVStore) (bucket : Bucket) (fails : String → Bool) (key : Bytes)
    (opts : Option ReadOptions) : Prop :=
  (∃ e, kv.Get (failing bucket fails) key opts = .error e ∧ e ≠ .KEY_NOT_FOUND) ∨
    kv.Get (failing bucket fails) key opts = kv.Get bucket.ReadAll key opts

theorem answerOf_some_inj (left right : Option Bytes) :
    answerOf (some left) = answerOf (some right) ↔ left = right := by
  cases left <;> cases right <;> simp [answerOf]

/-- A Get that the buffers do not answer is the scan of the segments. -/
theorem get_unbuffered (kv : KVStore) (readBlob : String → Except BlobError Data) (key : Bytes)
    (opts : Option ReadOptions)
    (unbuffered : ¬(durabilityOf opts = .DurabilityMemory ∧ kv.Buffers key)) :
    kv.Get readBlob key opts = scanBlobs readBlob key kv.flushID := by
  unfold KVStore.Get
  cases level : durabilityOf opts with
  | DurabilityRemote => rfl
  | DurabilityMemory =>
      have missed : kv.getMemory key = none :=
        (getMemory_eq_none_iff kv key).mpr fun held => unbuffered ⟨level, held⟩
      simp only [missed]

theorem get_buffered (kv : KVStore) (left right : String → Except BlobError Data) (key : Bytes)
    (opts : Option ReadOptions) (memory : durabilityOf opts = .DurabilityMemory)
    (held : kv.Buffers key) : kv.Get left key opts = kv.Get right key opts := by
  have found : kv.getMemory key ≠ none := fun missed =>
    (getMemory_eq_none_iff kv key).mp missed held
  obtain ⟨answer, found⟩ := Option.ne_none_iff_exists'.mp found
  simp only [KVStore.Get, memory, found]

variable {Client : Type} [DecidableEq Client]

/-- Failing reads do not mislead a Get of a reachable store exactly when a buffer
answers it, or no segment has the key, or the newest one with the key can be read, or
the newest one below that can be read records the same. -/
theorem get_not_misled_iff {admits : Trace Client → State Client → Event Client → Prop}
    {trace : Trace Client} {s : State Client} (run : Run system admits trace s)
    (fails : String → Bool) (key : Bytes) (opts : Option ReadOptions) :
    NotMisled s.store s.bucket fails key opts ↔
      (durabilityOf opts = .DurabilityMemory ∧ s.store.Buffers key) ∨
        Shielded fails (versions s.bucket key s.store.flushID) := by
  by_cases buffered : durabilityOf opts = .DurabilityMemory ∧ s.store.Buffers key
  · have same := get_buffered s.store (failing s.bucket fails) s.bucket.ReadAll key opts
      buffered.1 buffered.2
    exact ⟨fun _ => Or.inl buffered, fun _ => Or.inr same⟩
  · have written := written_run run
    have misread := scanBlobs_failing written fails key s.store.flushID
    have read := scanBlobs_failing written (fun _ => false) key s.store.flushID
    rw [failing_never] at read
    unfold NotMisled
    rw [get_unbuffered _ _ key opts buffered, get_unbuffered _ _ key opts buffered, misread, read,
      answerOf_some_inj, ← shielded_iff]
    constructor
    · rintro (⟨e, answered, other⟩ | shielded)
      · cases newest : newestReadable fails (versions s.bucket key s.store.flushID) with
        | none =>
            rw [newest] at answered
            exact absurd (Except.error.inj answered).symm other
        | some value =>
            rw [newest] at answered
            cases answered
      · exact Or.inr shielded
    · rintro (held | shielded)
      · exact absurd held buffered
      · exact Or.inr shielded

/-- A key in the older of two segments, newest call first. -/
def olderSegment : List Op := [.flush, .put [108] [2], .flush, .put [107] [1]]

/-- A key in both of two segments. -/
def bothSegments : List Op := [.flush, .put [107] [2], .flush, .put [107] [1]]

theorem get_not_misled_iff_older :
    NotMisled (session emptyBucket olderSegment).1 (session emptyBucket olderSegment).2
      (fun blobKey => blobKey = "data/0002.json") [107] none := by
  obtain ⟨trace, run, -, -⟩ := session_run olderSegment
  refine (get_not_misled_iff run (fun blobKey => blobKey = "data/0002.json") [107] none).mpr
    (Or.inr ?_)
  exact Or.inl (by decide)

/-- A Get that cannot read the newer segment returns the overwritten value. -/
theorem failed_read_returns_superseded :
    ∃ trace, ∃ s : State Unit, Run system faultFree trace s ∧ s.thread () = .idle ∧
      ¬NotMisled s.store s.bucket (fun blobKey => blobKey = "data/0002.json") [107] none ∧
      s.store.Get (failing s.bucket fun blobKey => blobKey = "data/0002.json") [107] none =
        .ok [1] ∧
      s.store.Get s.bucket.ReadAll [107] none = .ok [2] := by
  obtain ⟨trace, run, -, -⟩ := session_run bothSegments
  have misled : (session emptyBucket bothSegments).1.Get
      (failing (session emptyBucket bothSegments).2 fun blobKey => blobKey = "data/0002.json")
      [107] none = .ok [1] := by decide
  have right : (session emptyBucket bothSegments).1.Get
      (session emptyBucket bothSegments).2.ReadAll [107] none = .ok [2] := by decide
  refine ⟨trace, _, run, rfl, ?_, misled, right⟩
  rintro (⟨e, answered, -⟩ | same)
  · exact absurd (misled.symm.trans answered) (by simp)
  · exact absurd (misled.symm.trans (same.trans right)) (by decide)

end Gets

end FizzbeeMbt.GoStore
