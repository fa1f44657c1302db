import FizzbeeMbt.GoStore.Locks

/-! The layers of the Go store over the history of its writes.

The segments answer for the writes before the freeze of the latest landed Flush,
`immutableBuf` leads from there to the last freeze, and `buffer` from the last
freeze to now. -/

namespace FizzbeeMbt.GoStore

open FizzbeeMbt.Maps FizzbeeMbt.Deltas FizzbeeMbt.Runs

variable {Client : Type} [DecidableEq Client]

/-- Every entry that is still frozen has been written again. -/
def Rewritten (kv : KVStore) : Prop :=
  ∀ immutableBuf ∈ kv.immutableBuf, ∀ k ∈ immutableBuf.keys, k ∈ kv.buffer.keys

instance (kv : KVStore) : Decidable (Rewritten kv) :=
  inferInstanceAs (Decidable (∀ immutableBuf ∈ kv.immutableBuf, ∀ k ∈ immutableBuf.keys,
    k ∈ kv.buffer.keys))

theorem Rewritten.absent {kv : KVStore} (rewritten : Rewritten kv) {immutableBuf : SkipList}
    (frozen : kv.immutableBuf = some immutableBuf) {k : Bytes} (missed : kv.live k = none) :
    immutableBuf.lookup k = none := by
  by_contra present
  have key : k ∈ immutableBuf := by
    by_contra outside
    exact present (AList.lookup_eq_none.mpr outside)
  have live := rewritten immutableBuf frozen k (AList.mem_keys.mp key)
  exact (AList.lookup_eq_none.mp missed) (AList.mem_keys.mpr live)

/-- The freezes that lose nothing: what they drop from `immutableBuf` is in the
buffer they freeze. -/
def losslessFreeze (_ : Trace Client) (s : State Client) (event : Event Client) : Prop :=
  isFrozen event = true → Rewritten s.store

instance (trace : Trace Client) (s : State Client) (event : Event Client) :
    Decidable (losslessFreeze trace s event) :=
  inferInstanceAs (Decidable (isFrozen event = true → Rewritten s.store))

structure Layers (trace : Trace Client) (s : State Client) : Prop where
  segments : ∀ k, scanBlobs s.bucket.ReadAll k s.store.flushID =
    answerOf (latest (writes (landedAt trace)) k)
  unwritten : ∀ i, s.store.flushID < i → s.bucket.ReadAll (blobKey i) = .error .notFound
  ordered : landedAt trace <:+ frozenAt trace
  settled : s.store.immutableBuf = none → landedAt trace = frozenAt trace
  frozen : ∀ immutableBuf, s.store.immutableBuf = some immutableBuf →
    ∃ bufMap table, immutableBuf = bufMap.rebuild some ∧ Encodes bufMap table ∧
      Delta table (writes (landedAt trace)) (writes (frozenAt trace))
  buffered : Delta s.store.live (writes (frozenAt trace)) (writes trace)
  drained : s.store.buffer.isEmpty = true → writes (frozenAt trace) = writes trace
  writing : ∀ c flushID bufMap, s.thread c = .flushWriting flushID bufMap →
    flushID = s.store.flushID ∧ 0 < flushID ∧
      s.bucket.ReadAll (blobKey flushID) = .error .notFound ∧
      before (isFrozenBy c) trace = frozenAt trace ∧
      s.store.immutableBuf = some (bufMap.rebuild some) ∧
      ∃ table, Encodes bufMap table ∧
        Delta table (writes (landedAt trace)) (writes (frozenAt trace))
  clearing : ∀ c, s.thread c = .flushClearing → landedAt trace = frozenAt trace

/-- Events that neither write, nor freeze, land or clear. -/
def isQuiet : Event Client → Bool
  | .put _ _ _ => false
  | .delete _ _ => false
  | .frozen _ => false
  | .blobWritten _ _ => false
  | .flushReturned _ => false
  | _ => true

omit [DecidableEq Client] in
theorem writes_quiet (event : Event Client) (trace : Trace Client)
    (silent : writeOf event = none) : writes (event :: trace) = writes trace := by
  simp [writes, silent]

omit [DecidableEq Client] in
theorem writes_suffix {early late : Trace Client} (order : early <:+ late) :
    writes early <:+ writes late := order.filterMap writeOf

omit [DecidableEq Client] in
/-- Instants between which nothing was written have seen the same writes. -/
theorem writes_between {early q late : Trace Client} (inside : Between early q late)
    (idle : writes early = writes late) : writes q = writes late :=
  inside.observed writeOf idle

omit [DecidableEq Client] in
theorem valid_of_written {trace past : Trace Client} (keys : Utf8Keys trace)
    (earlier : past <:+ trace) (k : Bytes) (written : latest (writes past) k ≠ none) :
    Utf8Valid k := by
  obtain ⟨value, found⟩ := Option.ne_none_iff_exists'.mp written
  have member := mem_of_latest (writes past) k value found
  obtain ⟨event, present, wrote⟩ := List.mem_filterMap.mp member
  apply keys event (earlier.subset present) k
  cases event <;> simp_all [writeOf, keyOf]

omit [DecidableEq Client] in
theorem valid_of_delta {trace past : Trace Client} {table : Table Bytes Bytes}
    {older : History Bytes Bytes} (keys : Utf8Keys trace) (earlier : past <:+ trace)
    (delta : Delta table older (writes past)) (k : Bytes) (present : table k ≠ none) :
    Utf8Valid k := by
  obtain ⟨value, found⟩ := Option.ne_none_iff_exists'.mp present
  apply valid_of_written keys earlier k
  rw [delta.hit found]
  exact Option.some_ne_none value

theorem step_quiet {s s' : State Client} {event : Event Client} (taken : Step s event s')
    (quiet : isQuiet event = true) :
    s'.store = s.store ∧ s'.bucket = s.bucket ∧
      ∀ c, (s'.thread c).holdsFlushMutex = true → s'.thread c = s.thread c ∨
        s'.thread c = .flushLocked := by
  refine ⟨?_, ?_, ?_⟩
  · cases taken <;> first | rfl | simp [isQuiet] at quiet
  · cases taken <;> first | rfl | simp [isQuiet] at quiet
  · intro c holds
    by_cases acts : c = actor event
    · subst acts
      cases taken <;>
        simp_all [isQuiet, actor, State.move, State.unlockMu, State.unlockFlush,
          Thread.holdsFlushMutex]
    · exact Or.inl (step_thread_other taken c acts)

theorem layers_quiet {trace : Trace Client} {s s' : State Client} {event : Event Client}
    (layers : Layers trace s) (taken : Step s event s') (quiet : isQuiet event = true) :
    Layers (event :: trace) s' := by
  obtain ⟨store, bucket, flushers⟩ := step_quiet taken quiet
  have written : writes (event :: trace) = writes trace :=
    writes_quiet event trace (by cases event <;> simp_all [isQuiet, writeOf])
  have frozen : frozenAt (event :: trace) = frozenAt trace :=
    before_miss isFrozen event trace (by cases event <;> simp_all [isQuiet, isFrozen])
  have landed : landedAt (event :: trace) = landedAt trace := by
    cases event <;> simp_all [isQuiet, landedAt]
  have frozenBy (c : Client) : before (isFrozenBy c) (event :: trace) =
      before (isFrozenBy c) trace :=
    before_miss _ event trace (by cases event <;> simp_all [isQuiet, isFrozenBy])
  have same {c : Client} {thread : Thread} (at' : s'.thread c = thread)
      (holds : thread.holdsFlushMutex = true) (moved : thread ≠ .flushLocked) :
      s.thread c = thread := by
    rcases flushers c (at' ▸ holds) with unmoved | locked
    · exact unmoved ▸ at'
    · exact absurd (at' ▸ locked) moved
  constructor
  · rw [store, bucket, landed]
    exact layers.segments
  · rw [store, bucket]
    exact layers.unwritten
  · rw [landed, frozen]
    exact layers.ordered
  · rw [store, landed, frozen]
    exact layers.settled
  · rw [store, landed, frozen]
    exact layers.frozen
  · rw [store, frozen, written]
    exact layers.buffered
  · rw [store, frozen, written]
    exact layers.drained
  · intro c flushID bufMap at'
    rw [store, bucket, landed, frozen, frozenBy]
    exact layers.writing c flushID bufMap (same at' rfl (by simp))
  · intro c at'
    rw [landed, frozen]
    exact layers.clearing c (same at' rfl (by simp))

/-- A Put or a Delete only overlays its write on the buffer. -/
theorem layers_write {trace : Trace Client} {s : State Client} {event : Event Client}
    (layers : Layers trace s) (k : Bytes) (value : Option Bytes)
    (wrote : writeOf event = some (k, value)) :
    Layers (event :: trace)
      { s with store := { s.store with buffer := s.store.buffer.insert k value } } := by
  have written : writes (event :: trace) = (k, value) :: writes trace := by
    simp [writes, wrote]
  have frozen : frozenAt (event :: trace) = frozenAt trace :=
    before_miss isFrozen event trace (by cases event <;> simp_all [writeOf, isFrozen])
  have landed : landedAt (event :: trace) = landedAt trace := by
    cases event <;> simp_all [writeOf, landedAt]
  have frozenBy (c : Client) : before (isFrozenBy c) (event :: trace) =
      before (isFrozenBy c) trace :=
    before_miss _ event trace (by cases event <;> simp_all [writeOf, isFrozenBy])
  constructor
  · rw [landed]
    exact layers.segments
  · exact layers.unwritten
  · rw [landed, frozen]
    exact layers.ordered
  · rw [landed, frozen]
    exact layers.settled
  · rw [landed, frozen]
    exact layers.frozen
  · rw [frozen, written]
    apply (layers.buffered.write k value).congr
    intro k'
    exact lookup_insert_if s.store.buffer k k' value
  · intro empty
    have absent := (isEmpty_iff _).mp empty k
    simp at absent
  · intro c flushID bufMap at'
    rw [landed, frozen, frozenBy]
    exact layers.writing c flushID bufMap at'
  · intro c at'
    rw [landed, frozen]
    exact layers.clearing c at'

/-- A lossless freeze moves the buffer into `immutableBuf`, where it leads on from
the landed segments: either nothing was frozen before, or all of it is rewritten. -/
theorem layers_frozen {trace : Trace Client} {s : State Client} {c : Client}
    (layers : Layers trace s) (locks : Locks s) (locked : s.thread c = .flushLocked)
    (lossless : Rewritten s.store) :
    Layers (.frozen c :: trace)
      { s.move c (.flushWriting s.store.freeze.2.flushID s.store.freeze.1) with
        store := s.store.freeze.2 } := by
  have written : writes (.frozen c :: trace) = writes trace := rfl
  have frozen : frozenAt (.frozen c :: trace) = trace := rfl
  have landed : landedAt (.frozen c :: trace) = landedAt trace := rfl
  have onward : Delta s.store.live (writes (landedAt trace)) (writes trace) := by
    cases before : s.store.immutableBuf with
    | none =>
        rw [layers.settled before]
        exact layers.buffered
    | some immutableBuf =>
        obtain ⟨bufMap, table, rfl, encodes, delta⟩ := layers.frozen immutableBuf before
        apply delta.absorb layers.buffered
        intro k missed
        have absent := lossless.absent before missed
        rw [lookup_rebuild, encodes k] at absent
        simpa using absent
  have holds : (s.thread c).holdsFlushMutex = true := by rw [locked]; rfl
  constructor
  · intro k
    have absent := layers.unwritten (s.store.flushID + 1) (Nat.lt_succ_self _)
    exact (scanBlobs_absent _ k _ absent).trans (layers.segments k)
  · intro i beyond
    exact layers.unwritten i (Nat.lt_of_succ_lt beyond)
  · rw [landed, frozen]
    exact layers.ordered.trans (before_suffix isFrozen trace)
  · intro none
    cases none
  · intro immutableBuf same
    rw [landed, frozen]
    exact ⟨_, _, (Option.some.inj same).symm, freeze_encodes s.store, onward⟩
  · rw [frozen, written]
    exact delta_refl _ _ (fun k => rfl)
  · intro _
    rw [frozen, written]
  · intro other flushID bufMap at'
    by_cases acts : other = c
    · subst acts
      simp only [move_thread_self, Thread.flushWriting.injEq] at at'
      obtain ⟨rfl, rfl⟩ := at'
      refine ⟨rfl, Nat.succ_pos _, ?_, ?_, rfl, s.store.live, freeze_encodes s.store, onward⟩
      · exact layers.unwritten _ (Nat.lt_succ_self _)
      · rw [frozen]
        exact before_hit _ _ _ (by simp [isFrozenBy])
    · cases locks.sole_flusher c other holds _ _ acts at'
  · intro other at'
    by_cases acts : other = c
    · subst acts
      simp at at'
    · cases locks.sole_flusher c other holds _ _ acts at'

/-- When the blob of a Flush lands, the segments answer up to its freeze. -/
theorem layers_landed {trace : Trace Client} {s : State Client} {c : Client} {flushID : Nat}
    {bufMap : Map Bytes Bytes} (layers : Layers trace s) (locks : Locks s)
    (keys : Utf8Keys trace) (writing : s.thread c = .flushWriting flushID bufMap) :
    Layers (.blobWritten c flushID :: trace)
      { s.move c .flushClearing with
        bucket := s.bucket.WriteAll (blobKey flushID) (Marshal bufMap) } := by
  obtain ⟨rfl, positive, absent, byWriter, immutable, table, encodes, delta⟩ :=
    layers.writing c flushID bufMap writing
  have written : writes (.blobWritten c s.store.flushID :: trace) = writes trace := rfl
  have frozen : frozenAt (.blobWritten c s.store.flushID :: trace) = frozenAt trace := rfl
  have landed : landedAt (.blobWritten c s.store.flushID :: trace) = frozenAt trace := byWriter
  have holds : (s.thread c).holdsFlushMutex = true := by rw [writing]; rfl
  have valid := valid_of_delta keys (before_suffix isFrozen trace) delta
  constructor
  · intro k
    rw [landed]
    simp only [State.move]
    rw [scanBlobs_written s.bucket s.store.flushID bufMap table k positive absent encodes valid]
    cases found : table k with
    | none => exact (layers.segments k).trans (congrArg answerOf (delta.miss found).symm)
    | some value => exact congrArg answerOf (delta.hit found).symm
  · intro i beyond
    exact (readAll_writeAll_other s.bucket s.store.flushID i _ (Nat.ne_of_gt beyond)).trans
      (layers.unwritten i beyond)
  · rw [landed, frozen]
  · intro _
    rw [landed, frozen]
  · intro immutableBuf same
    rw [landed, frozen]
    refine ⟨bufMap, table, ?_, encodes, delta.settled⟩
    exact (Option.some.inj (immutable.symm.trans same)).symm
  · exact layers.buffered
  · exact layers.drained
  · intro other flushID bufMap at'
    by_cases acts : other = c
    · subst acts
      simp at at'
    · cases locks.sole_flusher c other holds _ _ acts at'
  · intro _ _
    rw [landed, frozen]

theorem layers_cleared {trace : Trace Client} {s : State Client} {c : Client}
    (layers : Layers trace s) (locks : Locks s) (clearing : s.thread c = .flushClearing) :
    Layers (.flushReturned c :: trace)
      { (s.move c .idle).unlockFlush with store := s.store.clearImmutable } := by
  have holds : (s.thread c).holdsFlushMutex = true := by rw [clearing]; rfl
  constructor
  · exact layers.segments
  · exact layers.unwritten
  · exact layers.ordered
  · intro _
    exact layers.clearing c clearing
  · intro immutableBuf same
    cases same
  · exact layers.buffered
  · exact layers.drained
  · intro other flushID bufMap at'
    by_cases acts : other = c
    · subst acts
      simp [State.unlockFlush] at at'
    · cases locks.sole_flusher c other holds _ _ acts at'
  · intro _ _
    exact layers.clearing c clearing

theorem layers_step {trace : Trace Client} {s s' : State Client} {event : Event Client}
    (layers : Layers trace s) (locks : Locks s) (keys : Utf8Keys trace)
    (lossless : losslessFreeze trace s event) (taken : Step s event s') :
    Layers (event :: trace) s' := by
  by_cases quiet : isQuiet event = true
  · exact layers_quiet layers taken quiet
  · cases taken with
    | put c key value idle free => exact layers_write layers key (some value) rfl
    | delete c key idle free => exact layers_write layers key none rfl
    | frozen c locked free filled => exact layers_frozen layers locks locked (lossless rfl)
    | blobWritten c writing => exact layers_landed layers locks keys writing
    | flushReturned c clearing free => exact layers_cleared layers locks clearing
    | _ => exact absurd rfl quiet

omit [DecidableEq Client] in
theorem Utf8Keys.past {trace past : Trace Client} (keys : Utf8Keys trace)
    (earlier : past <:+ trace) : Utf8Keys past :=
  fun event member => keys event (earlier.subset member)

theorem layers_run {trace : Trace Client} {s : State Client}
    (run : Run system losslessFreeze trace s) (keys : Utf8Keys trace) : Layers trace s := by
  revert keys
  apply run.invariant (fun trace s => Utf8Keys trace → Layers trace s)
  · intro s start keys
    subst start
    constructor
    · intro k; rfl
    · intro i _; rfl
    · exact List.suffix_refl _
    · intro _; rfl
    · intro immutableBuf same; cases same
    · exact delta_refl _ _ (fun k => rfl)
    · intro _; rfl
    · intro c flushID bufMap at'; cases at'
    · intro c at'; cases at'
  · intro trace s event s' before ih lossless taken keys
    have earlier : Utf8Keys trace := keys.past (List.suffix_cons event trace)
    exact layers_step (ih earlier) (locks_run before) earlier lossless taken

end FizzbeeMbt.GoStore
