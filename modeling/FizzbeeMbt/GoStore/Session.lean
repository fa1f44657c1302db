import FizzbeeMbt.GoStore.Locks

/-! One caller at a time on a Go store: its methods as functions, over a bucket that
may hold anything when the store is opened. -/

namespace FizzbeeMbt.GoStore

open FizzbeeMbt.Maps FizzbeeMbt.Deltas FizzbeeMbt.Runs

inductive Op where
  | put (key value : Bytes)
  | delete (key : Bytes)
  | flush

def Op.apply (at' : KVStore × Bucket) : Op → KVStore × Bucket
  | .put key value => (at'.1.Put key value, at'.2)
  | .delete key => (at'.1.Delete key, at'.2)
  | .flush => (at'.1.Flush at'.2 false).2

/-- A store opened on `bucket`, and the bucket, after the calls, newest call first. -/
def session (bucket : Bucket) : List Op → KVStore × Bucket
  | [] => (NewKVStore, bucket)
  | op :: earlier => op.apply (session bucket earlier)

def Op.write : Op → Option (Bytes × Option Bytes)
  | .put key value => some (key, some value)
  | .delete key => some (key, none)
  | .flush => none

def opWrites (ops : List Op) : History Bytes Bytes := ops.filterMap Op.write

/-- The writes that the Flushes of the session persist. -/
def persisted : List Op → History Bytes Bytes
  | [] => []
  | .flush :: earlier => opWrites earlier
  | _ :: earlier => persisted earlier

theorem persisted_suffix (ops : List Op) : persisted ops <:+ opWrites ops := by
  induction ops with
  | nil => exact List.suffix_refl []
  | cons op earlier ih =>
      cases op with
      | put key value => exact ih.trans (List.suffix_cons _ _)
      | delete key => exact ih.trans (List.suffix_cons _ _)
      | flush => exact List.suffix_refl _

/-- The buffer leads from the persisted writes to all writes of the session. -/
structure Buffered (kv : KVStore) (ops : List Op) : Prop where
  thawed : kv.immutableBuf = none
  live : Delta kv.live (persisted ops) (opWrites ops)
  drained : kv.buffer.isEmpty = true → persisted ops = opWrites ops

theorem Buffered.write {kv : KVStore} {ops : List Op} (buffered : Buffered kv ops) (op : Op)
    (key : Bytes) (value : Option Bytes) (wrote : op.write = some (key, value)) :
    Buffered { kv with buffer := kv.buffer.insert key value } (op :: ops) := by
  have written : opWrites (op :: ops) = (key, value) :: opWrites ops := by
    simp [opWrites, wrote]
  have kept : persisted (op :: ops) = persisted ops := by
    cases op <;> first | rfl | cases wrote
  constructor
  · exact buffered.thawed
  · rw [kept, written]
    apply (buffered.live.write key value).congr
    intro k
    exact lookup_insert_if kv.buffer key k value
  · intro empty
    have absent := (isEmpty_iff _).mp empty key
    simp at absent

theorem flush_empty (kv : KVStore) (bucket : Bucket) (empty : kv.buffer.isEmpty = true) :
    (kv.Flush bucket false).2 = (kv, bucket) := by
  simp [KVStore.Flush, empty]

theorem flush_filled (kv : KVStore) (bucket : Bucket) (filled : kv.buffer.isEmpty = false) :
    (kv.Flush bucket false).2 =
      (⟨∅, kv.flushID + 1, none⟩,
        bucket.WriteAll (blobKey (kv.flushID + 1)) (Marshal kv.freeze.1)) := by
  simp [KVStore.Flush, filled, KVStore.freeze, KVStore.clearImmutable]

theorem session_buffered (bucket : Bucket) (ops : List Op) :
    Buffered (session bucket ops).1 ops := by
  induction ops with
  | nil => exact ⟨rfl, delta_refl _ _ (fun k => rfl), fun _ => rfl⟩
  | cons op earlier ih =>
      cases op with
      | put key value => exact ih.write (.put key value) key (some value) rfl
      | delete key => exact ih.write (.delete key) key none rfl
      | flush =>
          simp only [session, Op.apply]
          cases filled : (session bucket earlier).1.buffer.isEmpty with
          | true =>
              rw [flush_empty _ _ filled]
              exact ⟨ih.thawed, ih.live.settled, fun _ => rfl⟩
          | false =>
              rw [flush_filled _ _ filled]
              exact ⟨rfl, delta_refl _ _ (fun k => rfl), fun _ => rfl⟩

/-- Whatever the bucket held before, a store's segments answer for what the store
itself has flushed: it reads no blob above its own counter. -/
theorem session_segments (bucket : Bucket) (ops : List Op)
    (keys : ∀ write ∈ opWrites ops, Utf8Valid write.1) (k : Bytes) :
    scanBlobs (session bucket ops).2.ReadAll k (session bucket ops).1.flushID =
      answerOf (latest (persisted ops) k) := by
  induction ops with
  | nil => rfl
  | cons op earlier ih =>
      have below : ∀ write ∈ opWrites earlier, Utf8Valid write.1 := by
        intro write member
        exact keys write (((List.suffix_cons op earlier).filterMap Op.write).subset member)
      cases op with
      | put key value => exact ih below
      | delete key => exact ih below
      | flush =>
          have buffered := session_buffered bucket earlier
          simp only [session, Op.apply]
          cases filled : (session bucket earlier).1.buffer.isEmpty with
          | true =>
              rw [flush_empty _ _ filled, ih below, buffered.drained filled]
              rfl
          | false =>
              rw [flush_filled _ _ filled]
              have valid : ∀ k, (session bucket earlier).1.live k ≠ none → Utf8Valid k := by
                intro k present
                obtain ⟨value, found⟩ := Option.ne_none_iff_exists'.mp present
                exact below (k, value) (mem_of_latest _ k value (buffered.live.hit found))
              rw [scanBlobs_top _ _ _ _ k (freeze_encodes _) valid]
              cases found : (session bucket earlier).1.live k with
              | none => exact (ih below).trans (congrArg answerOf (buffered.live.miss found).symm)
              | some value => exact congrArg answerOf (buffered.live.hit found).symm

/-- The writes a Get of the session reports on. -/
def visible (ops : List Op) (durability : DurabilityLevel) : History Bytes Bytes :=
  match durability with
  | .DurabilityRemote => persisted ops
  | .DurabilityMemory => opWrites ops

theorem session_get (bucket : Bucket) (ops : List Op)
    (keys : ∀ write ∈ opWrites ops, Utf8Valid write.1) (k : Bytes) (opts : Option ReadOptions) :
    (session bucket ops).1.Get (session bucket ops).2.ReadAll k opts =
      answerOf (latest (visible ops (durabilityOf opts)) k) := by
  have buffered := session_buffered bucket ops
  have scanned := session_segments bucket ops keys k
  unfold KVStore.Get visible
  cases durabilityOf opts with
  | DurabilityRemote => exact scanned
  | DurabilityMemory =>
      simp only [getMemory_unfrozen _ k buffered.thawed]
      cases live : (session bucket ops).1.live k with
      | some value => exact congrArg answerOf (buffered.live.hit live).symm
      | none => exact scanned.trans (congrArg answerOf (buffered.live.miss live).symm)

section Machine

/-- A machine at rest in the state of a session. -/
def atRest (at' : KVStore × Bucket) : State Unit :=
  { store := at'.1
    bucket := at'.2
    mu := none
    flushMutex := none
    thread := fun _ => .idle }

theorem only_move (s : State Unit) (thread : Thread) :
    s.move () thread = { s with thread := fun _ => thread } := by
  have all : Function.update s.thread () thread = fun _ => thread := by
    funext c
    exact Function.update_self () thread s.thread
  rw [State.move, all]

/-- A Flush call on an empty buffer, as the machine takes it. -/
theorem idle_flush_run {kv : KVStore} {bucket : Bucket} {trace : Trace Unit}
    (run : Run system faultFree trace (atRest (kv, bucket)))
    (empty : kv.buffer.isEmpty = true) :
    Run system faultFree (.flushSkipped () :: .flushLocked () :: .flushCalled () :: trace)
      (atRest (kv.Flush bucket false).2) := by
  have ended := ((run.step (.flushCalled () rfl) rfl).step
    (.flushLocked () (by simp) rfl) rfl).step
    (.flushSkipped () (by simp) rfl empty) rfl
  rw [flush_empty kv bucket empty]
  convert ended using 1
  simp [only_move, State.unlockFlush, atRest]

/-- A Flush call that freezes, as the machine takes it. -/
theorem busy_flush_run {kv : KVStore} {bucket : Bucket} {trace : Trace Unit}
    (run : Run system faultFree trace (atRest (kv, bucket)))
    (filled : kv.buffer.isEmpty = false) :
    Run system faultFree
      (.flushReturned () :: .blobWritten () (kv.flushID + 1) :: .frozen () ::
        .flushLocked () :: .flushCalled () :: trace) (atRest (kv.Flush bucket false).2) := by
  have ended := ((((run.step (.flushCalled () rfl) rfl).step
    (.flushLocked () (by simp) rfl) rfl).step
    (.frozen () (by simp) rfl filled) rfl).step
    (.blobWritten () (by simp [only_move, atRest, KVStore.freeze] :
      _ = Thread.flushWriting (kv.flushID + 1) kv.freeze.1)) rfl).step
    (.flushReturned () (by simp) rfl) rfl
  rw [flush_filled kv bucket filled]
  convert ended using 1
  simp [only_move, State.unlockFlush, atRest, KVStore.freeze, KVStore.clearImmutable]

/-- A session on an empty bucket is a run of the machine, which ends with every write
in the history and everything persisted before the freeze of the landed segments. -/
theorem session_run (ops : List Op) :
    ∃ trace, Run system faultFree trace (atRest (session emptyBucket ops)) ∧
      writes trace = opWrites ops ∧ writes (landedAt trace) = persisted ops := by
  induction ops with
  | nil => exact ⟨[], .start rfl, rfl, rfl⟩
  | cons op earlier ih =>
      obtain ⟨trace, run, written, landed⟩ := ih
      cases op with
      | put key value =>
          refine ⟨.put () key value :: trace, run.step (.put () key value rfl rfl) rfl, ?_, landed⟩
          exact congrArg (List.cons (key, some value)) written
      | delete key =>
          refine ⟨.delete () key :: trace, run.step (.delete () key rfl rfl) rfl, ?_, landed⟩
          exact congrArg (List.cons (key, none)) written
      | flush =>
          have buffered := session_buffered emptyBucket earlier
          cases filled : (session emptyBucket earlier).1.buffer.isEmpty with
          | true =>
              refine ⟨_, idle_flush_run run filled, written, ?_⟩
              exact landed.trans (buffered.drained filled)
          | false =>
              have froze : before (isFrozenBy ()) (.frozen () :: .flushLocked () ::
                  .flushCalled () :: trace) = .flushLocked () :: .flushCalled () :: trace :=
                before_hit _ _ _ (by simp [isFrozenBy])
              refine ⟨_, busy_flush_run run filled, written, ?_⟩
              exact (congrArg writes froze).trans written

/-- The blob loop of a Get, as the machine takes it. -/
theorem scan_run {kv : KVStore} {bucket : Bucket} {key : Bytes} {durability : DurabilityLevel}
    (i : Nat) {trace : Trace Unit}
    (run : Run system faultFree trace
      { atRest (kv, bucket) with
        mu := some ()
        thread := fun _ => .getScanning key durability i }) :
    ∃ past, trace <:+ past ∧ writes past = writes trace ∧
      Run system faultFree
        (.getReturned () key durability (scanBlobs bucket.ReadAll key i) :: past)
        (atRest (kv, bucket)) := by
  induction i generalizing trace with
  | zero =>
      refine ⟨trace, List.suffix_refl _, rfl, ?_⟩
      have ended := run.step (.scanEnded () rfl) rfl
      rw [only_move] at ended
      exact ended
  | succ i ih =>
      cases look : scanBlob (bucket.ReadAll (blobKey (i + 1))) key with
      | some answer =>
          refine ⟨trace, List.suffix_refl _, rfl, ?_⟩
          have ended := run.step (.blobAnswered () rfl look) rfl
          rw [only_move] at ended
          simp only [scanBlobs, look]
          exact ended
      | none =>
          have passed := run.step (.blobPassed () rfl look) rfl
          rw [only_move] at passed
          obtain ⟨past, later, silent, ended⟩ := ih passed
          refine ⟨past, (List.suffix_cons _ _).trans later, silent, ?_⟩
          simp only [scanBlobs, look]
          exact ended

/-- A Get that nothing interleaves with returns what the function returns. -/
theorem get_run {kv : KVStore} {bucket : Bucket} {trace : Trace Unit}
    (run : Run system faultFree trace (atRest (kv, bucket))) (key : Bytes)
    (opts : Option ReadOptions) :
    ∃ past, trace <:+ past ∧ writes past = writes trace ∧
      Run system faultFree
        (.getReturned () key (durabilityOf opts) (kv.Get bucket.ReadAll key opts) :: past)
        (atRest (kv, bucket)) := by
  have called := run.step (.getCalled () key opts rfl) rfl
  rw [only_move] at called
  have locked := called.step (.getLocked () rfl rfl) rfl
  rw [only_move] at locked
  have order : trace <:+ .getLocked () :: .getCalled () key (durabilityOf opts) :: trace :=
    (List.suffix_cons _ _).trans (List.suffix_cons _ _)
  unfold KVStore.Get
  generalize durabilityOf opts = durability at *
  cases durability with
  | DurabilityRemote =>
      have missed := locked.step (.getMissed () rfl (fun memory => by cases memory)) rfl
      rw [only_move] at missed
      obtain ⟨past, later, silent, ended⟩ := scan_run _ missed
      exact ⟨past, order.trans ((List.suffix_cons _ _).trans later), silent, ended⟩
  | DurabilityMemory =>
      cases look : kv.getMemory key with
      | some answer =>
          refine ⟨_, order, rfl, ?_⟩
          have ended := locked.step (.getFound () rfl look) rfl
          rw [only_move] at ended
          exact ended
      | none =>
          have missed := locked.step (.getMissed () rfl (fun _ => look)) rfl
          rw [only_move] at missed
          obtain ⟨past, later, silent, ended⟩ := scan_run _ missed
          exact ⟨past, order.trans ((List.suffix_cons _ _).trans later), silent, ended⟩

end Machine

end FizzbeeMbt.GoStore
