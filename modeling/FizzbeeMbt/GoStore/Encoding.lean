import FizzbeeMbt.GoStore.Runes
import FizzbeeMbt.GoStore.Store

/-! The three encodings a write passes through on its way into a segment: the raw
value of the buffer, the tagged entry of `immutableBuf`, the member of a JSON object. -/

namespace FizzbeeMbt.GoStore

open FizzbeeMbt.Maps FizzbeeMbt.Deltas

section Decoding

/-- A segment answers under the names that JSON gives its keys, and where two keys get
one name, with the entry of the greater key. -/
theorem lookup_unmarshal (kvPairs : Map Bytes Bytes) :
    ∃ decoded, Unmarshal (Marshal kvPairs) = some decoded ∧
      (∀ k, kvPairs.lookup k ≠ none → decoded.lookup (jsonString k) ≠ none) ∧
      ∀ j val, decoded.lookup j = some val ↔
        ∃ k, jsonString k = j ∧ kvPairs.lookup k = some val ∧
          ∀ k', jsonString k' = j → kvPairs.lookup k' ≠ none → k' ≤ k := by
  let sorted := kvPairs.entryList.insertionSort (fun a b => a.1 ≤ b.1)
  have permuted : sorted.reverse.Perm kvPairs.entryList :=
    (List.reverse_perm sorted).trans (List.perm_insertionSort _ _)
  have distinct : (sorted.reverse.map Prod.fst).Nodup :=
    (permuted.map Prod.fst).nodup_iff.mpr (entryList_distinct kvPairs)
  have descending : sorted.reverse.Pairwise fun a b => b.1 ≤ a.1 :=
    List.pairwise_reverse.mpr (List.pairwise_insertionSort _ _)
  have held : ∀ k val, (k, val) ∈ sorted.reverse ↔ kvPairs.lookup k = some val := by
    intro k val
    rw [← lookup_eq_some_iff_mem _ distinct, lookup_perm distinct permuted, lookup_entryList]
  have listed : ∀ k, k ∈ sorted.reverse.map Prod.fst ↔ kvPairs.lookup k ≠ none := by
    intro k
    rw [Option.ne_none_iff_exists']
    constructor
    · intro member
      obtain ⟨⟨_, val⟩, found, rfl⟩ := List.mem_map.mp member
      exact ⟨val, (held _ val).mp found⟩
    · rintro ⟨val, found⟩
      exact List.mem_map.mpr ⟨(k, val), (held k val).mpr found, rfl⟩
  refine ⟨_, rfl, ?_, ?_⟩
  · intro k present missing
    rw [lookup_ofEntries, ← List.map_reverse] at missing
    obtain ⟨entry, member, rfl⟩ := List.mem_map.mp ((listed k).mpr present)
    have renamed := List.mem_map_of_mem
      (f := fun entry : Bytes × Bytes => (jsonString entry.1, entry.2)) member
    exact lookup_ne_none _ renamed missing
  · intro j val
    rw [lookup_ofEntries, ← List.map_reverse,
      lookup_renamed (· ≤ ·) jsonString sorted.reverse distinct descending]
    simp only [held, listed]

end Decoding

section Flush

/-- A fresh store after the writes, newest write first. -/
def written : History Bytes Bytes → KVStore
  | [] => NewKVStore
  | (key, some value) :: earlier => (written earlier).Put key value
  | (key, none) :: earlier => (written earlier).Delete key

/-- Store and bucket before a Flush, after its freeze, after its blob write and after
its return; on an empty buffer Flush returns at once. -/
def flushStages (kv : KVStore) (bucket : Bucket) : List (KVStore × Bucket) :=
  if kv.buffer.isEmpty then [(kv, bucket)] else
  let (bufMap, frozen) := kv.freeze
  let landed := bucket.WriteAll (blobKey frozen.flushID) (Marshal bufMap)
  [(kv, bucket), (frozen, bucket), (frozen, landed), (frozen.clearImmutable, landed)]

theorem flush_mem_stages (kv : KVStore) (bucket : Bucket) :
    (kv.Flush bucket false).2 ∈ flushStages kv bucket := by
  unfold KVStore.Flush flushStages
  split <;> simp

def memory : Option ReadOptions := some ⟨.DurabilityMemory⟩

def remote : Option ReadOptions := some ⟨.DurabilityRemote⟩

/-- What a Flush of the writes, in a bucket of its own, leaves of the reads. -/
structure Lossless (writes : History Bytes Bytes) : Prop where
  memory_same : ∀ stage ∈ flushStages (written writes) emptyBucket, ∀ k,
    stage.1.Get stage.2.ReadAll k memory = (written writes).Get emptyBucket.ReadAll k memory
  remote_same : ∀ k,
    ((written writes).Flush emptyBucket false).2.1.Get
        ((written writes).Flush emptyBucket false).2.2.ReadAll k remote =
      (written writes).Get emptyBucket.ReadAll k memory
  frozen_filled : ∀ immutableBuf, (written writes).freeze.2.immutableBuf = some immutableBuf →
    ∀ k val, immutableBuf.lookup k = some (some val) → val ≠ []
  decoded_filled : ∀ decoded, Unmarshal (Marshal (written writes).freeze.1) = some decoded →
    ∀ k val, decoded.lookup k = some val → val ≠ []

/-- A key that ends with a value is valid UTF-8, and a deleted key sorts before such a
key where JSON gives it the other's name. -/
structure KeysSurvive (writes : History Bytes Bytes) : Prop where
  stored : ∀ k value, latest writes k = some (some value) → Utf8Valid k
  deleted : ∀ k value, latest writes k = some none →
    latest writes (jsonString k) = some (some value) → k < jsonString k

theorem written_fresh (writes : History Bytes Bytes) :
    (written writes).flushID = 0 ∧ (written writes).immutableBuf = none ∧
      ∀ k, (written writes).live k = latest writes k := by
  induction writes with
  | nil => exact ⟨rfl, rfl, fun k => rfl⟩
  | cons write earlier ih =>
      obtain ⟨key, value⟩ := write
      obtain ⟨counter, thawed, live⟩ := ih
      have grown : ∀ k, ((written earlier).buffer.insert key value).lookup k =
          latest ((key, value) :: earlier) k := by
        intro k
        rw [lookup_insert_if, latest_cons, ← live k]
        rfl
      cases value with
      | none => exact ⟨counter, thawed, grown⟩
      | some value => exact ⟨counter, thawed, grown⟩

theorem written_get (writes : History Bytes Bytes) (k : Bytes) :
    (written writes).Get emptyBucket.ReadAll k memory = answerOf (latest writes k) := by
  obtain ⟨counter, thawed, live⟩ := written_fresh writes
  simp only [KVStore.Get, durabilityOf, memory, getMemory_unfrozen _ k thawed, live k, counter]
  cases latest writes k <;> rfl

/-- What the blob loop makes of a looked-up entry of the only segment. -/
def segmentAnswer (entry : Option Bytes) : Except GetError Bytes :=
  match entry with
  | some val => decodeEntry val
  | none => .error .KEY_NOT_FOUND

/-- The segment that the writes end up in. -/
structure SegmentOf (writes : History Bytes Bytes) (decoded : Map Bytes Bytes) : Prop where
  read : Unmarshal (Marshal (written writes).freeze.1) = some decoded
  kept : ∀ k, latest writes k ≠ none → decoded.lookup (jsonString k) ≠ none
  named : ∀ j val, decoded.lookup j = some val ↔
    ∃ k value, jsonString k = j ∧ latest writes k = some value ∧ encodeEntry value = val ∧
      ∀ k', jsonString k' = j → latest writes k' ≠ none → k' ≤ k

theorem exists_segment (writes : History Bytes Bytes) : ∃ decoded, SegmentOf writes decoded := by
  obtain ⟨decoded, read, kept, named⟩ := lookup_unmarshal (written writes).freeze.1
  have tagged : ∀ k, (written writes).freeze.1.lookup k = (latest writes k).map encodeEntry := by
    intro k
    rw [freeze_encodes, (written_fresh writes).2.2 k]
  refine ⟨decoded, read, fun k present => kept k (by simpa [tagged k] using present), ?_⟩
  intro j val
  rw [named]
  constructor
  · rintro ⟨k, same, found, greatest⟩
    obtain ⟨value, last, entry⟩ := Option.map_eq_some_iff.mp ((tagged k).symm.trans found)
    refine ⟨k, value, same, last, entry, ?_⟩
    intro k' same' present
    exact greatest k' same' (by simpa [tagged k'] using present)
  · rintro ⟨k, value, same, last, entry, greatest⟩
    refine ⟨k, same, by simp [tagged k, last, entry], ?_⟩
    intro k' same' present
    exact greatest k' same' (by simpa [tagged k'] using present)

theorem SegmentOf.answers {writes : History Bytes Bytes} {decoded : Map Bytes Bytes}
    (segment : SegmentOf writes decoded) (survive : KeysSurvive writes) (k : Bytes) :
    segmentAnswer (decoded.lookup k) = answerOf (latest writes k) := by
  cases found : decoded.lookup k with
  | none =>
      rcases last : latest writes k with _ | _ | value
      · rfl
      · rfl
      · have name := jsonString_valid k (survive.stored k value last)
        have present := segment.kept k (by simp [last])
        rw [name, found] at present
        exact absurd rfl present
  | some val =>
      obtain ⟨key, value, name, last, rfl, greatest⟩ := (segment.named k val).mp found
      cases value with
      | some value =>
          rw [jsonString_valid key (survive.stored key value last)] at name
          rw [← name, last]
          exact decodeEntry_encodeEntry (some value)
      | none =>
          rcases own : latest writes k with _ | _ | value
          · rfl
          · rfl
          · have before : key < jsonString key :=
              survive.deleted key value last (name.symm ▸ own)
            have after : jsonString key ≤ key := by
              rw [name]
              apply greatest k (jsonString_valid k (survive.stored k value own))
              simp [own]
            exact absurd before after

theorem SegmentOf.survive {writes : History Bytes Bytes} {decoded : Map Bytes Bytes}
    (segment : SegmentOf writes decoded)
    (answers : ∀ k, segmentAnswer (decoded.lookup k) = answerOf (latest writes k)) :
    KeysSurvive writes := by
  have held : ∀ k value, latest writes k = some (some value) →
      ∃ val, decoded.lookup k = some val ∧ decodeEntry val = .ok value := by
    intro k value last
    have answer := answers k
    rw [last] at answer
    cases found : decoded.lookup k with
    | none => simp [segmentAnswer, answerOf, found] at answer
    | some val => exact ⟨val, rfl, by simpa [segmentAnswer, answerOf, found] using answer⟩
  have stored : ∀ k value, latest writes k = some (some value) → Utf8Valid k := by
    intro k value last
    obtain ⟨val, found, -⟩ := held k value last
    obtain ⟨key, -, rfl, -⟩ := (segment.named k val).mp found
    exact utf8Valid_jsonString key
  refine ⟨stored, ?_⟩
  intro k value gone last
  obtain ⟨val, found, reads⟩ := held _ value last
  obtain ⟨key, value', name, own, rfl, greatest⟩ := (segment.named _ val).mp found
  rw [decodeEntry_encodeEntry] at reads
  cases value' with
  | none => simp [answerOf] at reads
  | some value' =>
      rw [jsonString_valid key (stored key value' own)] at name
      have upto : k ≤ jsonString k := name ▸ greatest k rfl (by simp [gone])
      apply List.not_le.mp
      intro back
      have equal : k = jsonString k := List.le_antisymm upto back
      rw [← equal, gone] at last
      cases last

/-- The segment answers for every key as the buffer did exactly when the keys survive. -/
theorem SegmentOf.answers_iff {writes : History Bytes Bytes} {decoded : Map Bytes Bytes}
    (segment : SegmentOf writes decoded) :
    (∀ k, segmentAnswer (decoded.lookup k) = answerOf (latest writes k)) ↔ KeysSurvive writes :=
  ⟨segment.survive, segment.answers⟩

theorem SegmentOf.scan {writes : History Bytes Bytes} {decoded : Map Bytes Bytes}
    (segment : SegmentOf writes decoded) (k : Bytes) :
    scanBlobs (emptyBucket.WriteAll (blobKey 1) (Marshal (written writes).freeze.1)).ReadAll k 1 =
      segmentAnswer (decoded.lookup k) := by
  simp only [scanBlobs, Nat.zero_add, readAll_writeAll_same, scanBlob, segment.read]
  cases decoded.lookup k <;> rfl

theorem frozen_get (writes : History Bytes Bytes) (bucket : Bucket) (k : Bytes) :
    (written writes).freeze.2.Get bucket.ReadAll k memory =
      match latest writes k with
      | some value => answerOf (some value)
      | none => scanBlobs bucket.ReadAll k 1 := by
  obtain ⟨counter, -, live⟩ := written_fresh writes
  have tagged : Encodes (written writes).freeze.1 (latest writes) := by
    intro k
    rw [freeze_encodes, live k]
  have drained : (written writes).freeze.2.live k = none := rfl
  have looked := getMemory_frozen (written writes).freeze.2 _ _ k rfl tagged
  have first : (written writes).freeze.2.flushID = 1 := by
    simp [KVStore.freeze, counter]
  rw [drained, Option.none_or] at looked
  simp only [KVStore.Get, durabilityOf, memory, looked, first]
  cases latest writes k <;> rfl

theorem encodeEntry_ne_nil (value : Option Bytes) : encodeEntry value ≠ [] := by
  cases value <;> simp [encodeEntry]

theorem frozen_filled (writes : History Bytes Bytes) (immutableBuf : SkipList)
    (frozen : (written writes).freeze.2.immutableBuf = some immutableBuf) (k val : Bytes)
    (found : immutableBuf.lookup k = some (some val)) : val ≠ [] := by
  obtain rfl := Option.some.inj frozen
  rw [lookup_rebuild, lookup_rebuild] at found
  cases live : (written writes).buffer.lookup k with
  | none => simp [live] at found
  | some value =>
      obtain rfl : encodeEntry value = val := by simpa [live] using found
      exact encodeEntry_ne_nil value

theorem SegmentOf.filled {writes : History Bytes Bytes} {decoded : Map Bytes Bytes}
    (segment : SegmentOf writes decoded) (k val : Bytes)
    (found : decoded.lookup k = some val) : val ≠ [] := by
  obtain ⟨-, value, -, -, rfl, -⟩ := (segment.named k val).mp found
  exact encodeEntry_ne_nil value

/-- The stages of a Flush that has something to write, on a store of its own. -/
theorem filled_stages (writes : History Bytes Bytes)
    (filled : (written writes).buffer.isEmpty = false) :
    flushStages (written writes) emptyBucket =
      [(written writes, emptyBucket),
        ((written writes).freeze.2, emptyBucket),
        ((written writes).freeze.2,
          emptyBucket.WriteAll (blobKey 1) (Marshal (written writes).freeze.1)),
        ((written writes).freeze.2.clearImmutable,
          emptyBucket.WriteAll (blobKey 1) (Marshal (written writes).freeze.1))] := by
  have first : (written writes).freeze.2.flushID = 1 := by
    simp [KVStore.freeze, (written_fresh writes).1]
  simp only [flushStages, filled, first, Bool.false_eq_true, if_false]

theorem filled_flush (writes : History Bytes Bytes)
    (filled : (written writes).buffer.isEmpty = false) :
    ((written writes).Flush emptyBucket false).2 =
      ((written writes).freeze.2.clearImmutable,
        emptyBucket.WriteAll (blobKey 1) (Marshal (written writes).freeze.1)) := by
  have first : (written writes).freeze.2.flushID = 1 := by
    simp [KVStore.freeze, (written_fresh writes).1]
  simp only [KVStore.Flush, filled, first, Bool.false_eq_true, if_false]

theorem cleared_get (writes : History Bytes Bytes) (bucket : Bucket) (k : Bytes)
    (opts : Option ReadOptions) :
    (written writes).freeze.2.clearImmutable.Get bucket.ReadAll k opts =
      scanBlobs bucket.ReadAll k 1 := by
  have first : (written writes).freeze.2.clearImmutable.flushID = 1 := by
    simp [KVStore.freeze, KVStore.clearImmutable, (written_fresh writes).1]
  have nothing : (written writes).freeze.2.clearImmutable.getMemory k = none := rfl
  simp only [KVStore.Get, first, nothing]
  cases durabilityOf opts <;> rfl

/-- After a Flush there is nothing in memory for a Get to find. -/
theorem flushed_get (writes : History Bytes Bytes) (k : Bytes) :
    ((written writes).Flush emptyBucket false).2.1.Get
        ((written writes).Flush emptyBucket false).2.2.ReadAll k remote =
      ((written writes).Flush emptyBucket false).2.1.Get
        ((written writes).Flush emptyBucket false).2.2.ReadAll k memory := by
  cases filled : (written writes).buffer.isEmpty with
  | true =>
      obtain ⟨counter, thawed, -⟩ := written_fresh writes
      have nothing : (written writes).getMemory k = none := by
        rw [getMemory_unfrozen _ k thawed, KVStore.live, (isEmpty_iff _).mp filled k]
        rfl
      simp only [KVStore.Flush, filled, if_true, KVStore.Get, durabilityOf, remote, memory,
        nothing]
  | false => rw [filled_flush writes filled, cleared_get, cleared_get]

/-- A Flush loses no answer and makes up none exactly when every key left with a value
is valid UTF-8 and no deleted key takes such a key's name after it. -/
theorem flush_lossless_iff (writes : History Bytes Bytes) :
    Lossless writes ↔ KeysSurvive writes := by
  obtain ⟨decoded, segment⟩ := exists_segment writes
  have decoded_filled : ∀ read, Unmarshal (Marshal (written writes).freeze.1) = some read →
      ∀ k val, read.lookup k = some val → val ≠ [] := by
    intro read same
    obtain rfl := Option.some.inj (segment.read.symm.trans same)
    exact segment.filled
  -- What a Flush returns is its last stage.
  have lossless_of_stages (stages : ∀ stage ∈ flushStages (written writes) emptyBucket, ∀ k,
      stage.1.Get stage.2.ReadAll k memory =
        (written writes).Get emptyBucket.ReadAll k memory) : Lossless writes :=
    ⟨stages, fun k => (flushed_get writes k).trans (stages _ (flush_mem_stages _ _) k),
      frozen_filled writes, decoded_filled⟩
  rw [← segment.answers_iff]
  cases filled : (written writes).buffer.isEmpty with
  | true =>
      have unwritten : ∀ k, latest writes k = none := by
        intro k
        rw [← (written_fresh writes).2.2 k]
        exact (isEmpty_iff _).mp filled k
      constructor
      · intro _ k
        rw [unwritten k]
        cases found : decoded.lookup k with
        | none => rfl
        | some val =>
            obtain ⟨key, value, -, last, -⟩ := (segment.named k val).mp found
            rw [unwritten key] at last
            cases last
      · intro _
        apply lossless_of_stages
        intro stage member k
        simp only [flushStages, filled, if_true, List.mem_singleton] at member
        rw [member]
  | false =>
      constructor
      · intro lossless k
        have same := lossless.remote_same k
        rwa [filled_flush writes filled, cleared_get, segment.scan, written_get] at same
      · intro answers
        apply lossless_of_stages
        intro stage member k
        rw [filled_stages writes filled] at member
        rw [written_get]
        simp only [List.mem_cons, List.not_mem_nil, or_false] at member
        rcases member with rfl | rfl | rfl | rfl
        · exact written_get writes k
        · rw [frozen_get]
          cases latest writes k <;> rfl
        · rw [frozen_get, segment.scan, answers k]
          cases latest writes k <;> rfl
        · rw [cleared_get, segment.scan, answers k]

/-- A Put under a key that is no UTF-8: after Flush the key reads as absent, and the
key that JSON wrote in its place, which nobody put, reads as the value. -/
theorem flush_loses_invalid_key :
    ((written [([0xFF], some [1])]).Flush emptyBucket false).2.1.Get
        ((written [([0xFF], some [1])]).Flush emptyBucket false).2.2.ReadAll [0xFF] memory =
          .error .KEY_NOT_FOUND ∧
      ((written [([0xFF], some [1])]).Flush emptyBucket false).2.1.Get
        ((written [([0xFF], some [1])]).Flush emptyBucket false).2.2.ReadAll
          [0xEF, 0xBF, 0xBD] memory = .ok [1] ∧
        (written [([0xFF], some [1])]).Get emptyBucket.ReadAll [0xFF] memory = .ok [1] ∧
          ¬Lossless [([0xFF], some [1])] := by
  refine ⟨by decide, by decide, by decide, ?_⟩
  intro lossless
  have same := lossless.remote_same [0xFF]
  revert same
  decide

end Flush

end FizzbeeMbt.GoStore
