import FizzbeeMbt.GoStore.Session

/-! Two Go stores, one opened after the other on one bucket. -/

namespace FizzbeeMbt.GoStore

open FizzbeeMbt.Maps FizzbeeMbt.Deltas

/-- The blobs that the Flushes of the session write. -/
def blobsWritten (bucket : Bucket) : List Op → List String
  | [] => []
  | .flush :: earlier =>
      let kv := (session bucket earlier).1
      if kv.buffer.isEmpty then blobsWritten bucket earlier
      else blobKey (kv.flushID + 1) :: blobsWritten bucket earlier
  | _ :: earlier => blobsWritten bucket earlier

/-- A session writes the blobs from number 1 up to its counter. -/
theorem mem_blobsWritten (bucket : Bucket) (ops : List Op) (blob : String) :
    blob ∈ blobsWritten bucket ops ↔
      ∃ i, 1 ≤ i ∧ i ≤ (session bucket ops).1.flushID ∧ blob = blobKey i := by
  induction ops with
  | nil =>
      constructor
      · intro member
        cases member
      · rintro ⟨i, positive, bound, -⟩
        have : i ≤ 0 := bound
        omega
  | cons op earlier ih =>
      cases op with
      | put key value => exact ih
      | delete key => exact ih
      | flush =>
          simp only [session, Op.apply, blobsWritten]
          cases filled : (session bucket earlier).1.buffer.isEmpty with
          | true =>
              rw [flush_empty _ _ filled]
              exact ih
          | false =>
              rw [flush_filled _ _ filled]
              simp only [Bool.false_eq_true, if_false, List.mem_cons, ih]
              constructor
              · rintro (rfl | ⟨i, positive, bound, rfl⟩)
                · exact ⟨_, Nat.succ_pos _, Nat.le_refl _, rfl⟩
                · exact ⟨i, positive, Nat.le_succ_of_le bound, rfl⟩
              · rintro ⟨i, positive, bound, rfl⟩
                rcases Nat.lt_or_eq_of_le bound with small | rfl
                · exact Or.inr ⟨i, positive, Nat.le_of_lt_succ small, rfl⟩
                · exact Or.inl rfl

/-- The counter of a session stays at 0 as long as nothing is persisted. -/
theorem flushID_eq_zero_iff (bucket : Bucket) (ops : List Op) :
    (session bucket ops).1.flushID = 0 ↔ persisted ops = [] := by
  induction ops with
  | nil => exact ⟨fun _ => rfl, fun _ => rfl⟩
  | cons op earlier ih =>
      cases op with
      | put key value => exact ih
      | delete key => exact ih
      | flush =>
          have buffered := session_buffered bucket earlier
          simp only [session, Op.apply, persisted]
          cases filled : (session bucket earlier).1.buffer.isEmpty with
          | true =>
              rw [flush_empty _ _ filled, ih, buffered.drained filled]
          | false =>
              rw [flush_filled _ _ filled]
              constructor
              · intro zero
                exact absurd zero (Nat.succ_ne_zero _)
              · intro nothing
                have empty : (session bucket earlier).1.buffer.isEmpty = true := by
                  apply (isEmpty_iff _).mpr
                  intro k
                  have hit := buffered.live k
                  rw [nothing, latest_nil] at hit
                  exact (Option.or_eq_none_iff.mp hit.symm).1
                rw [filled] at empty
                cases empty

/-- A reopened store reads nothing of what was flushed before it was opened. -/
theorem reopened_get (bucket : Bucket) (later : List Op)
    (keys : ∀ write ∈ opWrites later, Utf8Valid write.1) (key : Bytes)
    (unwritten : ∀ write ∈ opWrites later, write.1 ≠ key) (opts : Option ReadOptions) :
    (session bucket later).1.Get (session bucket later).2.ReadAll key opts =
      .error .KEY_NOT_FOUND := by
  have none (history : History Bytes Bytes) (part : history <:+ opWrites later) :
      latest history key = none := by
    cases found : latest history key with
    | none => rfl
    | some value =>
        have member := part.subset (mem_of_latest history key value found)
        exact absurd rfl (unwritten _ member)
  rw [session_get bucket later keys]
  cases durabilityOf opts with
  | DurabilityRemote => exact congrArg answerOf (none _ (persisted_suffix later))
  | DurabilityMemory => exact congrArg answerOf (none _ (List.suffix_refl _))

/-- The data flushed by the session `earlier` survives a session `later` on the same
bucket: it is what Get returns for the keys that `later` has not written, and its
blobs are not written again. -/
def Survives (bucket : Bucket) (earlier later : List Op) : Prop :=
  (∀ key, (∀ write ∈ opWrites later, write.1 ≠ key) → ∀ opts,
    (session (session bucket earlier).2 later).1.Get
        (session (session bucket earlier).2 later).2.ReadAll key opts =
      answerOf (latest (persisted earlier) key)) ∧
    ∀ blob ∈ blobsWritten (session bucket earlier).2 later,
      blob ∉ blobsWritten bucket earlier

theorem blobs_disjoint_iff (first second : Bucket) (earlier later : List Op) :
    (∀ blob ∈ blobsWritten second later, blob ∉ blobsWritten first earlier) ↔
      persisted earlier = [] ∨ persisted later = [] := by
  rw [← flushID_eq_zero_iff first earlier, ← flushID_eq_zero_iff second later]
  constructor
  · intro apart
    by_contra both
    have counters : 1 ≤ (session first earlier).1.flushID ∧
        1 ≤ (session second later).1.flushID := by omega
    apply apart (blobKey 1)
    · exact (mem_blobsWritten second later _).mpr ⟨1, Nat.le_refl 1, counters.2, rfl⟩
    · exact (mem_blobsWritten first earlier _).mpr ⟨1, Nat.le_refl 1, counters.1, rfl⟩
  · intro zero blob again before
    obtain ⟨i, positive, bound, rfl⟩ := (mem_blobsWritten second later blob).mp again
    obtain ⟨j, positive', bound', same⟩ := (mem_blobsWritten first earlier _).mp before
    rw [blobKey_inj] at same
    omega

/-- Reopening a bucket keeps what was flushed exactly when the new store has, before the
Get, written every key that was left with a value, and one of the two stores has flushed
no write at all. -/
theorem reopened_survives_iff (bucket : Bucket) (earlier later : List Op)
    (keys : ∀ write ∈ opWrites later, Utf8Valid write.1) :
    Survives bucket earlier later ↔
      (∀ key value, latest (persisted earlier) key = some (some value) →
        ∃ write ∈ opWrites later, write.1 = key) ∧
        (persisted earlier = [] ∨ persisted later = []) := by
  unfold Survives
  rw [blobs_disjoint_iff]
  apply and_congr_left
  intro _
  have nothing := reopened_get (session bucket earlier).2 later keys
  constructor
  · intro same key value found
    by_contra outside
    have unwritten : ∀ write ∈ opWrites later, write.1 ≠ key :=
      fun write member equal => outside ⟨write, member, equal⟩
    have answer := same key unwritten none
    rw [nothing key unwritten none, found] at answer
    cases answer
  · intro covered key unwritten opts
    rw [nothing key unwritten opts]
    rcases found : latest (persisted earlier) key with _ | _ | value
    · rfl
    · rfl
    · obtain ⟨write, member, equal⟩ := covered key value found
      exact absurd equal (unwritten write member)

/-- A deleted key beside one with a value, which the second store writes again. -/
def tombstoneSession : List Op := [.flush, .put [108] [2], .delete [107], .put [107] [1]]

theorem reopened_survives_iff_tombstone :
    Survives emptyBucket tombstoneSession [.put [108] [3]] := by
  apply (reopened_survives_iff emptyBucket tombstoneSession [.put [108] [3]] (by decide)).mpr
  refine ⟨?_, Or.inr rfl⟩
  intro key value found
  have flushed : persisted tombstoneSession =
      [([108], some [2]), ([107], none), ([107], some [1])] := rfl
  rw [flushed, latest_cons, latest_cons, latest_cons] at found
  split_ifs at found with kept deleted
  · exact ⟨([108], some [3]), List.mem_singleton_self _, kept.symm⟩
  · cases found
  · rw [latest_nil] at found
    cases found

/-- Put and Flush, then on the reopened bucket a Put of another key and Flush: the
first key reads as absent, and the first blob is written again. -/
theorem reopened_store_loses_flushed_put :
    (session (session emptyBucket [.flush, .put [107] [1]]).2 [.flush, .put [108] [2]]).1.Get
        (session (session emptyBucket [.flush, .put [107] [1]]).2
          [.flush, .put [108] [2]]).2.ReadAll [107] none = .error .KEY_NOT_FOUND ∧
      answerOf (latest (persisted [.flush, .put [107] [1]]) [107]) = .ok [1] ∧
        blobsWritten emptyBucket [.flush, .put [107] [1]] = ["data/0001.json"] ∧
          blobsWritten (session emptyBucket [.flush, .put [107] [1]]).2
            [.flush, .put [108] [2]] = ["data/0001.json"] ∧
            ¬Survives emptyBucket [.flush, .put [107] [1]] [.flush, .put [108] [2]] := by
  refine ⟨by decide, by decide, by decide, by decide, ?_⟩
  intro survives
  have answer := survives.1 [107] (by decide) none
  revert answer
  decide

end FizzbeeMbt.GoStore
