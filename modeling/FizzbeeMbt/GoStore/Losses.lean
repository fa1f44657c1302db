import FizzbeeMbt.GoStore.Specification

/-! Where the writes of the Go store are, and which of them it has lost, whatever blob
writes fail. -/

namespace FizzbeeMbt.GoStore

open FizzbeeMbt.Maps FizzbeeMbt.Deltas FizzbeeMbt.Runs

variable {Client : Type}

/-- The writes that `buffer` holds, those that `immutableBuf` holds and whether their blob
has landed, and those of each landed blob. Newest first. -/
structure Ledger where
  buffered : History Bytes Bytes
  frozen : History Bytes Bytes
  written : Bool
  landed : List (History Bytes Bytes)

def Ledger.durable (ledger : Ledger) : History Bytes Bytes := ledger.landed.flatten

/-- The frozen writes that are in no blob. -/
def Ledger.unlanded (ledger : Ledger) : History Bytes Bytes :=
  if ledger.written then [] else ledger.frozen

def Ledger.kept (ledger : Ledger) : History Bytes Bytes :=
  ledger.buffered ++ (ledger.unlanded ++ ledger.durable)

def Ledger.record (ledger : Ledger) : Event Client → Ledger
  | .put _ key value => { ledger with buffered := (key, some value) :: ledger.buffered }
  | .delete _ key => { ledger with buffered := (key, none) :: ledger.buffered }
  | .frozen _ => { ledger with buffered := [], frozen := ledger.buffered, written := false }
  | .blobWritten _ _ => { ledger with written := true, landed := ledger.frozen :: ledger.landed }
  | .flushReturned _ => { ledger with frozen := [], written := false }
  | _ => ledger

def ledgerOf : Trace Client → Ledger
  | [] => ⟨[], [], false, []⟩
  | event :: trace => (ledgerOf trace).record event

/-- The writes that were in no blob when a Flush froze others in their place. -/
def lostBy : Trace Client → History Bytes Bytes
  | [] => []
  | event :: trace =>
      if isFrozen event then (ledgerOf trace).unlanded ++ lostBy trace else lostBy trace

variable [DecidableEq Client]

/-- The store and its bucket hold what the writes in the ledger make. -/
structure Booked (ledger : Ledger) (s : State Client) : Prop where
  buffered : ∀ k, s.store.live k = latest ledger.buffered k
  thawed : s.store.immutableBuf = none → ledger.frozen = []
  frozen : ∀ immutableBuf, s.store.immutableBuf = some immutableBuf →
    ∃ bufMap, immutableBuf = bufMap.rebuild some ∧ Encodes bufMap (latest ledger.frozen)
  segments : ∀ k, scanBlobs s.bucket.ReadAll k s.store.flushID =
    answerOf (latest ledger.durable k)
  unwritten : ∀ i, s.store.flushID < i → s.bucket.ReadAll (blobKey i) = .error .notFound
  writing : ∀ c flushID bufMap, s.thread c = .flushWriting flushID bufMap →
    flushID = s.store.flushID ∧ 0 < flushID ∧
      s.bucket.ReadAll (blobKey flushID) = .error .notFound ∧
      Encodes bufMap (latest ledger.frozen) ∧ ledger.written = false
  clearing : ∀ c, s.thread c = .flushClearing → ledger.written = true
  newest : ledger.written = true → ∃ older, ledger.landed = ledger.frozen :: older
  valid : ∀ write ∈ ledger.buffered ++ ledger.frozen, Utf8Valid write.1

section Steps

variable {ledger : Ledger} {s s' : State Client} {event : Event Client}

theorem booked_quiet (booked : Booked ledger s) (taken : Step s event s')
    (quiet : isQuiet event = true) : Booked (ledger.record event) s' := by
  obtain ⟨store, bucket, flushers⟩ := step_quiet taken quiet
  have same : ledger.record event = ledger := by
    cases event <;> first | rfl | cases quiet
  rw [same]
  constructor
  · rw [store]
    exact booked.buffered
  · rw [store]
    exact booked.thawed
  · rw [store]
    exact booked.frozen
  · rw [store, bucket]
    exact booked.segments
  · rw [store, bucket]
    exact booked.unwritten
  · intro c flushID bufMap at'
    rw [store, bucket]
    rcases flushers c (by rw [at']; rfl) with still | locked
    · exact booked.writing c flushID bufMap (still.symm.trans at')
    · rw [locked] at at'
      cases at'
  · intro c at'
    rcases flushers c (by rw [at']; rfl) with still | locked
    · exact booked.clearing c (still.symm.trans at')
    · rw [locked] at at'
      cases at'
  · exact booked.newest
  · exact booked.valid

omit [DecidableEq Client] in
theorem booked_write (booked : Booked ledger s) (k : Bytes) (value : Option Bytes)
    (valid : Utf8Valid k) :
    Booked { ledger with buffered := (k, value) :: ledger.buffered }
      { s with store := { s.store with buffer := s.store.buffer.insert k value } } := by
  constructor
  · intro k'
    rw [latest_cons, ← booked.buffered k']
    exact lookup_insert_if s.store.buffer k k' value
  · exact booked.thawed
  · exact booked.frozen
  · exact booked.segments
  · exact booked.unwritten
  · exact booked.writing
  · exact booked.clearing
  · exact booked.newest
  · intro write member
    rcases List.mem_cons.mp member with rfl | older
    · exact valid
    · exact booked.valid write older

/-- A freeze puts the buffer in the place of what was frozen before. -/
theorem booked_frozen {c : Client} (booked : Booked ledger s) (locks : Locks s)
    (locked : s.thread c = .flushLocked) :
    Booked (ledger.record (.frozen c : Event Client))
      { s.move c (.flushWriting s.store.freeze.2.flushID s.store.freeze.1) with
        store := s.store.freeze.2 } := by
  have holds : (s.thread c).holdsFlushMutex = true := by rw [locked]; rfl
  have encodes : Encodes s.store.freeze.1 (latest ledger.buffered) := by
    intro k
    rw [freeze_encodes s.store k, booked.buffered k]
  have absent := booked.unwritten (s.store.flushID + 1) (Nat.lt_succ_self _)
  constructor
  · intro k
    rfl
  · intro none
    cases none
  · intro immutableBuf same
    exact ⟨_, (Option.some.inj same).symm, encodes⟩
  · intro k
    exact (scanBlobs_absent _ k _ absent).trans (booked.segments k)
  · intro i beyond
    exact booked.unwritten i (Nat.lt_of_succ_lt beyond)
  · intro other flushID bufMap at'
    by_cases acts : other = c
    · subst acts
      simp only [move_thread_self, Thread.flushWriting.injEq] at at'
      obtain ⟨rfl, rfl⟩ := at'
      exact ⟨rfl, Nat.succ_pos _, absent, encodes, rfl⟩
    · cases locks.sole_flusher c other holds _ _ acts at'
  · intro other at'
    by_cases acts : other = c
    · subst acts
      simp at at'
    · cases locks.sole_flusher c other holds _ _ acts at'
  · intro written
    cases written
  · intro write member
    exact booked.valid write (List.mem_append_left _ member)

theorem booked_landed {c : Client} {flushID : Nat} {bufMap : Map Bytes Bytes}
    (booked : Booked ledger s) (locks : Locks s)
    (writing : s.thread c = .flushWriting flushID bufMap) :
    Booked (ledger.record (.blobWritten c flushID))
      { s.move c .flushClearing with
        bucket := s.bucket.WriteAll (blobKey flushID) (Marshal bufMap) } := by
  obtain ⟨rfl, positive, absent, encodes, -⟩ := booked.writing c flushID bufMap writing
  have holds : (s.thread c).holdsFlushMutex = true := by rw [writing]; rfl
  have valid : ∀ k, latest ledger.frozen k ≠ none → Utf8Valid k := by
    intro k present
    obtain ⟨value, found⟩ := Option.ne_none_iff_exists'.mp present
    exact booked.valid _ (List.mem_append_right _ (mem_of_latest ledger.frozen k value found))
  constructor
  · exact booked.buffered
  · exact booked.thawed
  · exact booked.frozen
  · intro k
    show scanBlobs _ k s.store.flushID = answerOf (latest (ledger.frozen ++ ledger.durable) k)
    rw [scanBlobs_written s.bucket _ bufMap (latest ledger.frozen) k positive absent encodes valid,
      latest_append]
    cases latest ledger.frozen k with
    | none => exact booked.segments k
    | some value => rfl
  · intro i beyond
    exact (readAll_writeAll_other s.bucket s.store.flushID i _ (Nat.ne_of_gt beyond)).trans
      (booked.unwritten i beyond)
  · intro other flushID bufMap at'
    by_cases acts : other = c
    · subst acts
      simp at at'
    · cases locks.sole_flusher c other holds _ _ acts at'
  · intro _ _
    rfl
  · intro _
    exact ⟨ledger.landed, rfl⟩
  · exact booked.valid

theorem booked_cleared {c : Client} (booked : Booked ledger s) (locks : Locks s)
    (clearing : s.thread c = .flushClearing) :
    Booked (ledger.record (.flushReturned c : Event Client))
      { (s.move c .idle).unlockFlush with store := s.store.clearImmutable } := by
  have holds : (s.thread c).holdsFlushMutex = true := by rw [clearing]; rfl
  constructor
  · exact booked.buffered
  · intro _
    rfl
  · intro immutableBuf same
    cases same
  · exact booked.segments
  · exact booked.unwritten
  · intro other flushID bufMap at'
    by_cases acts : other = c
    · subst acts
      simp [State.unlockFlush] at at'
    · cases locks.sole_flusher c other holds _ _ acts at'
  · intro other at'
    by_cases acts : other = c
    · subst acts
      simp [State.unlockFlush] at at'
    · cases locks.sole_flusher c other holds _ _ acts at'
  · intro written
    cases written
  · intro write member
    have buffered : write ∈ ledger.buffered := by
      simpa [Ledger.record] using member
    exact booked.valid write (List.mem_append_left _ buffered)

theorem booked_step (booked : Booked ledger s) (locks : Locks s)
    (valid : ∀ key ∈ keyOf event, Utf8Valid key) (taken : Step s event s') :
    Booked (ledger.record event) s' := by
  by_cases quiet : isQuiet event = true
  · exact booked_quiet booked taken quiet
  · cases taken with
    | put c key value idle free => exact booked_write booked key (some value) (valid key rfl)
    | delete c key idle free => exact booked_write booked key none (valid key rfl)
    | frozen c locked free filled => exact booked_frozen booked locks locked
    | blobWritten c writing => exact booked_landed booked locks writing
    | flushReturned c clearing free => exact booked_cleared booked locks clearing
    | _ => exact absurd rfl quiet

theorem booked_run {admits : Trace Client → State Client → Event Client → Prop}
    {trace : Trace Client} {s : State Client} (run : Run system admits trace s)
    (keys : Utf8Keys trace) : Booked (ledgerOf trace) s := by
  revert keys
  apply run.invariant fun trace s => Utf8Keys trace → Booked (ledgerOf trace) s
  · intro s start keys
    obtain rfl : s = initial := start
    constructor
    · intro k; rfl
    · intro _; rfl
    · intro immutableBuf same; cases same
    · intro k; rfl
    · intro i _; rfl
    · intro c flushID bufMap at'; cases at'
    · intro c at'; cases at'
    · intro written; cases written
    · intro write member; cases member
  · intro trace s event s' before ih _ taken keys
    have earlier : Utf8Keys trace := keys.past (List.suffix_cons event trace)
    exact booked_step (ih earlier) (locks_run before) (keys event List.mem_cons_self) taken

end Steps

section Kept

variable {ledger : Ledger} {s s' : State Client} {event : Event Client}

/-- Only a freeze loses writes, those of a Flush that failed before it. -/
theorem kept_step (booked : Booked ledger s) (taken : Step s event s') :
    (isFrozen event = true ∧ writeOf event = none ∧ (∃ c, s.thread c = .flushLocked) ∧
        (ledger.record event).kept = ledger.buffered ++ ledger.durable) ∨
      (isFrozen event = false ∧
        (ledger.record event).kept = (writeOf event).toList ++ ledger.kept) := by
  cases taken with
  | frozen c locked free filled => exact Or.inl ⟨rfl, rfl, ⟨c, locked⟩, rfl⟩
  | @blobWritten c flushID bufMap writing =>
      obtain ⟨-, -, -, -, unlanded⟩ := booked.writing c flushID bufMap writing
      refine Or.inr ⟨rfl, ?_⟩
      simp [Ledger.record, Ledger.kept, Ledger.unlanded, Ledger.durable, writeOf, unlanded]
  | flushReturned c clearing free =>
      refine Or.inr ⟨rfl, ?_⟩
      simp [Ledger.record, Ledger.kept, Ledger.unlanded, Ledger.durable, writeOf,
        booked.clearing c clearing]
  | _ => exact Or.inr ⟨rfl, rfl⟩

omit [DecidableEq Client] in
theorem writes_cons (event : Event Client) (trace : Trace Client) :
    writes (event :: trace) = (writeOf event).toList ++ writes trace := by
  cases wrote : writeOf event <;> simp [writes, wrote]

theorem kept_sublist {admits : Trace Client → State Client → Event Client → Prop}
    {trace : Trace Client} {s : State Client} (run : Run system admits trace s)
    (keys : Utf8Keys trace) : (ledgerOf trace).kept.Sublist (writes trace) := by
  revert keys
  apply run.invariant fun trace _ => Utf8Keys trace → (ledgerOf trace).kept.Sublist (writes trace)
  · intro _ _ _
    exact List.Sublist.refl _
  · intro trace s event s' before ih _ taken keys
    have earlier : Utf8Keys trace := keys.past (List.suffix_cons event trace)
    have kept := ih earlier
    rw [writes_cons, ledgerOf]
    rcases kept_step (booked_run before earlier) taken with ⟨-, silent, -, froze⟩ | ⟨-, moved⟩
    · rw [froze, silent]
      have fewer : ((ledgerOf trace).buffered ++ (ledgerOf trace).durable).Sublist
          (ledgerOf trace).kept :=
        (List.sublist_append_right _ _).append_left _
      exact fewer.trans kept
    · rw [moved]
      exact kept.append_left _

theorem kept_or_lost {admits : Trace Client → State Client → Event Client → Prop}
    {trace : Trace Client} {s : State Client} (run : Run system admits trace s)
    (keys : Utf8Keys trace) : ((ledgerOf trace).kept ++ lostBy trace).Perm (writes trace) := by
  revert keys
  apply run.invariant fun trace _ => Utf8Keys trace →
    ((ledgerOf trace).kept ++ lostBy trace).Perm (writes trace)
  · intro _ _ _
    exact List.Perm.refl _
  · intro trace s event s' before ih _ taken keys
    have earlier : Utf8Keys trace := keys.past (List.suffix_cons event trace)
    rw [writes_cons, ledgerOf, lostBy]
    rcases kept_step (booked_run before earlier) taken with
      ⟨frozen, silent, -, froze⟩ | ⟨unfrozen, moved⟩
    · rw [if_pos frozen, silent, froze]
      exact (dropped_perm (ledgerOf trace).buffered [] _ _ _).trans (ih earlier)
    · rw [if_neg (by simp [unfrozen]), moved, List.append_assoc]
      exact (ih earlier).append_left _

theorem kept_all {trace : Trace Client} {s : State Client} (run : Run system faultFree trace s)
    (keys : Utf8Keys trace) : (ledgerOf trace).kept = writes trace := by
  revert keys
  apply run.invariant fun trace _ => Utf8Keys trace → (ledgerOf trace).kept = writes trace
  · intro _ _ _
    rfl
  · intro trace s event s' before ih _ taken keys
    have earlier : Utf8Keys trace := keys.past (List.suffix_cons event trace)
    have kept := ih earlier
    have booked := booked_run before earlier
    rw [writes_cons, ledgerOf]
    rcases kept_step booked taken with ⟨-, silent, ⟨c, locked⟩, froze⟩ | ⟨-, moved⟩
    · have nothing : (ledgerOf trace).unlanded = [] := by
        rw [Ledger.unlanded, booked.thawed (thawed_at_lock before locked), ite_self]
      rw [froze, silent, ← kept, Ledger.kept, nothing]
      rfl
    · rw [moved, kept]

end Kept

section Gets

variable {ledger : Ledger} {trace : Trace Client} {s s' : State Client} {event : Event Client}

omit [DecidableEq Client] in
/-- Frozen writes whose blob has landed count once. -/
theorem Booked.latest_kept (booked : Booked ledger s) (k : Bytes) :
    latest ledger.kept k =
      (latest ledger.buffered k).or ((latest ledger.frozen k).or (latest ledger.durable k)) := by
  rw [Ledger.kept, latest_append, latest_append, Ledger.unlanded]
  cases landed : ledger.written with
  | false => rfl
  | true =>
      obtain ⟨older, newest⟩ := booked.newest landed
      have again : latest ledger.durable k =
          (latest ledger.frozen k).or (latest older.flatten k) := by
        rw [Ledger.durable, newest, List.flatten_cons, latest_append]
      have once : (latest ledger.frozen k).or (latest ledger.durable k) =
          latest ledger.durable k := by
        rw [again, ← Option.or_assoc, Option.or_self]
      rw [once]
      rfl

omit [DecidableEq Client] in
theorem Booked.getMemory (booked : Booked ledger s) (k : Bytes) :
    s.store.getMemory k = ((latest ledger.buffered k).or (latest ledger.frozen k)).map
      fun value => answerOf (some value) := by
  rw [← booked.buffered k]
  cases frozen : s.store.immutableBuf with
  | none =>
      rw [getMemory_unfrozen _ _ frozen, booked.thawed frozen, latest_nil, Option.or_none]
  | some immutableBuf =>
      obtain ⟨bufMap, rfl, encodes⟩ := booked.frozen immutableBuf frozen
      exact getMemory_frozen s.store bufMap _ k frozen encodes

omit [DecidableEq Client] in
theorem Booked.memory_found (booked : Booked ledger s) {k : Bytes}
    {answer : Except GetError Bytes} (found : s.store.getMemory k = some answer) :
    answer = answerOf (latest ledger.kept k) := by
  rw [booked.getMemory k] at found
  obtain ⟨value, hit, rfl⟩ := Option.map_eq_some_iff.mp found
  rw [booked.latest_kept k, ← Option.or_assoc, hit]
  rfl

omit [DecidableEq Client] in
theorem Booked.memory_missed (booked : Booked ledger s) {k : Bytes}
    (missed : s.store.getMemory k = none) : latest ledger.kept k = latest ledger.durable k := by
  rw [booked.getMemory k] at missed
  rw [booked.latest_kept k, ← Option.or_assoc, Option.map_eq_none_iff.mp missed, Option.none_or]

/-- What a Get of the durability level reports on. -/
def Ledger.visible (ledger : Ledger) : DurabilityLevel → History Bytes Bytes
  | .DurabilityRemote => ledger.durable
  | .DurabilityMemory => ledger.kept

/-- A Get that is still to read the blobs from number `i` down answers for an instant
since it took `mu`. -/
structure Scanned (trace : Trace Client) (s : State Client) (c : Client) (key : Bytes)
    (durability : DurabilityLevel) (i : Nat) : Prop where
  bound : i ≤ s.store.flushID
  missed : durability = .DurabilityMemory → s.store.getMemory key = none
  answers : ∃ q, Between (lockedAt c trace) q trace ∧
    scanBlobs s.bucket.ReadAll key i = answerOf (latest ((ledgerOf q).visible durability) key)

/-- A scan that has all blobs before it. -/
theorem scanned_top {c : Client} {key : Bytes} {durability : DurabilityLevel}
    (booked : Booked (ledgerOf trace) s) (locked : lockedAt c trace <:+ trace)
    (missed : durability = .DurabilityMemory → s.store.getMemory key = none) :
    Scanned trace s c key durability s.store.flushID := by
  refine ⟨Nat.le_refl _, missed, trace, between_now locked, ?_⟩
  cases durability with
  | DurabilityRemote => exact booked.segments key
  | DurabilityMemory =>
      rw [Ledger.visible, booked.memory_missed (missed rfl)]
      exact booked.segments key

theorem scanned_beside {c : Client} {key : Bytes} {durability : DurabilityLevel} {i : Nat}
    (booked : Booked (ledgerOf trace) s) (booked' : Booked (ledgerOf (event :: trace)) s')
    (locks : Locks s) (scanned : Scanned trace s c key durability i)
    (holds : (s.thread c).holdsMu = true) (differ : c ≠ actor event) (taken : Step s event s') :
    Scanned (event :: trace) s' c key durability i := by
  obtain ⟨store, -, bucket⟩ := step_beside_reader locks c holds differ taken
  have locked : lockedAt c (event :: trace) = lockedAt c trace :=
    before_miss _ _ _ (marks_of_other c event differ).1
  have missed : durability = .DurabilityMemory → s'.store.getMemory key = none := by
    rw [store]
    exact scanned.missed
  -- Only the blob under the counter can have landed.
  have unread : scanBlobs s'.bucket.ReadAll key i = scanBlobs s.bucket.ReadAll key i ∨
      i = s'.store.flushID := by
    rcases bucket with same | ⟨writer, flushID, bufMap, rfl, writing, landed⟩
    · exact Or.inl (by rw [same])
    · obtain ⟨counter, -⟩ := booked.writing writer flushID bufMap writing
      rcases Nat.lt_or_eq_of_le scanned.bound with below | top
      · apply Or.inl
        rw [landed]
        apply scanBlobs_congr
        intro j small
        apply readAll_writeAll_other
        omega
      · exact Or.inr (by rw [store, top])
  rcases unread with same | rfl
  · obtain ⟨q, inside, answers⟩ := scanned.answers
    refine ⟨by rw [store]; exact scanned.bound, missed, q, ?_, by rw [same, answers]⟩
    rw [locked]
    exact inside.later event
  · exact scanned_top booked' (before_suffix _ _) missed

theorem scanned_own {key : Bytes} {durability : DurabilityLevel} {i : Nat}
    (booked : Booked (ledgerOf (event :: trace)) s')
    (scanned : ∀ key durability i, s.thread (actor event) = .getScanning key durability i →
      Scanned trace s (actor event) key durability i)
    (taken : Step s event s') (at' : s'.thread (actor event) = .getScanning key durability i) :
    Scanned (event :: trace) s' (actor event) key durability i := by
  cases taken with
  | getMissed c locked missed =>
      simp only [actor, move_thread_self, Thread.getScanning.injEq] at at'
      obtain ⟨rfl, rfl, rfl⟩ := at'
      exact scanned_top booked (before_suffix _ _) missed
  | @blobPassed c key durability i scanning passed =>
      simp only [actor, move_thread_self, Thread.getScanning.injEq] at at'
      obtain ⟨rfl, rfl, rfl⟩ := at'
      obtain ⟨bound, missed, q, inside, answers⟩ := scanned key durability (i + 1) scanning
      have onward : scanBlobs s.bucket.ReadAll key (i + 1) =
          scanBlobs s.bucket.ReadAll key i := by simp [scanBlobs, passed]
      exact ⟨Nat.le_of_succ_le bound, missed, q, inside.later _, onward.symm.trans answers⟩
  | put c key value idle free => simp_all [actor]
  | delete c key idle free => simp_all [actor]
  | getCalled c key opts idle => simp_all [actor]
  | _ => simp_all [actor, State.move, State.unlockMu, State.unlockFlush]

theorem scanned_run {admits : Trace Client → State Client → Event Client → Prop}
    (run : Run system admits trace s) (keys : Utf8Keys trace) (c : Client) (key : Bytes)
    (durability : DurabilityLevel) (i : Nat)
    (scanning : s.thread c = .getScanning key durability i) :
    Scanned trace s c key durability i := by
  revert keys c key durability i
  apply run.invariant fun trace s => Utf8Keys trace → ∀ c key durability i,
    s.thread c = .getScanning key durability i → Scanned trace s c key durability i
  · intro s start _ c key durability i scanning
    obtain rfl : s = initial := start
    cases scanning
  · intro trace s event s' before ih admitted taken keys c key durability i scanning
    have earlier : Utf8Keys trace := keys.past (List.suffix_cons event trace)
    have booked' := booked_run (before.step taken admitted) keys
    by_cases own : c = actor event
    · subst own
      exact scanned_own booked' (ih earlier _) taken scanning
    · rw [step_thread_other taken c own] at scanning
      exact scanned_beside (booked_run before earlier) booked' (locks_run before)
        (ih earlier c key durability i scanning) (by rw [scanning]; rfl) own taken

/-- A Get takes `mu` after its call. -/
theorem called_before_locked {admits : Trace Client → State Client → Event Client → Prop}
    (run : Run system admits trace s) (c : Client) (holds : (s.thread c).holdsMu = true) :
    calledAt c trace <:+ lockedAt c trace := by
  revert c
  apply run.invariant fun trace s => ∀ c, (s.thread c).holdsMu = true →
    calledAt c trace <:+ lockedAt c trace
  · intro s start c holds
    obtain rfl : s = initial := start
    cases holds
  · intro trace s event s' before ih _ taken c holds
    by_cases own : c = actor event
    · subst own
      rcases own_step_reader taken holds with ⟨c, rfl⟩ | ⟨held, -, unlocked, uncalled⟩
      · have locked : lockedAt c (.getLocked c :: trace) = trace :=
          before_hit _ _ _ (by simp [isGetLockedBy])
        have called : calledAt c (.getLocked c :: trace) = calledAt c trace :=
          before_miss _ _ _ rfl
        simp only [actor]
        rw [locked, called]
        exact before_suffix _ trace
      · rw [calledAt, lockedAt, before_miss _ _ _ unlocked, before_miss _ _ _ uncalled]
        exact ih _ held
    · rw [step_thread_other taken c own] at holds
      obtain ⟨unlocked, uncalled⟩ := marks_of_other c event own
      rw [calledAt, lockedAt, before_miss _ _ _ unlocked, before_miss _ _ _ uncalled]
      exact ih c holds

/-- Whatever blob writes fail, the store loses the writes of failed Flushes and no others,
when the next Flush freezes, and Gets are linearizable over what is kept: a Remote one over
the landed blobs, a Memory one over all of it. -/
theorem gets_linearize_kept_writes (run : Run system anyStep trace s) (keys : Utf8Keys trace) :
    ((ledgerOf trace).kept.Sublist (writes trace) ∧
        ((ledgerOf trace).kept ++ lostBy trace).Perm (writes trace) ∧
        (Run system faultFree trace s → (ledgerOf trace).kept = writes trace)) ∧
      ∀ get : GetReturn trace, ∃ q, Between (calledAt get.c get.past) q get.past ∧
        get.answer = answerOf (latest ((ledgerOf q).visible get.durability) get.key) := by
  refine ⟨⟨kept_sublist run keys, kept_or_lost run keys, fun sound => kept_all sound keys⟩, ?_⟩
  intro get
  obtain ⟨c, key, durability, answer, past, returned⟩ := get
  obtain ⟨s₁, s₂, before, -, taken⟩ := run.emitted returned
  have earlier : Utf8Keys past := keys.past ((List.suffix_cons _ past).trans returned)
  have within : (s₁.thread c).holdsMu = true → ∀ q, Between (lockedAt c past) q past →
      Between (calledAt c past) q past :=
    fun holds q inside => ⟨(called_before_locked before c holds).trans inside.1, inside.2⟩
  cases taken with
  | getFound c locked found =>
      refine ⟨past, within (by rw [locked]; rfl) past (between_now (before_suffix _ past)), ?_⟩
      exact (booked_run before earlier).memory_found found
  | @blobAnswered c key durability i answer scanning answered =>
      obtain ⟨-, -, q, inside, answers⟩ := scanned_run before earlier c key durability _ scanning
      refine ⟨q, within (by rw [scanning]; rfl) q inside, ?_⟩
      rw [← answers]
      simp only [scanBlobs, answered]
  | @scanEnded c key durability scanning =>
      obtain ⟨-, -, q, inside, answers⟩ := scanned_run before earlier c key durability 0 scanning
      exact ⟨q, within (by rw [scanning]; rfl) q inside, answers⟩

/-- A failed Flush, a Memory Get that still finds what it froze, a Flush that drops it, and
a Memory Get that no longer does. -/
def forgottenTrace : Trace Unit :=
  [.getReturned () [107] .DurabilityMemory (.error .KEY_NOT_FOUND), .blobPassed (),
    .blobPassed (), .getMissed (), .getLocked (), .getCalled () [107] .DurabilityMemory,
    .flushReturned (), .blobWritten () 2, .frozen (), .flushLocked (), .flushCalled (),
    .put () [108] [2], .getReturned () [107] .DurabilityMemory (.ok [1]), .getLocked (),
    .getCalled () [107] .DurabilityMemory, .writeFailed () 1, .frozen (), .flushLocked (),
    .flushCalled (), .put () [107] [1]]

theorem gets_linearize_kept_writes_forgotten :
    (∃ s, Run system anyStep forgottenTrace s) ∧
      ((ledgerOf forgottenTrace).kept ++ [([107], some [1])]).Perm
        [([108], some [2]), ([107], some [1])] ∧
      (∃ q : Trace Unit, (.ok [1] : Except GetError Bytes) =
        answerOf (latest (ledgerOf q).kept [107])) ∧
      ∃ q : Trace Unit, (.error .KEY_NOT_FOUND : Except GetError Bytes) =
        answerOf (latest (ledgerOf q).kept [107]) := by
  have start : Run system anyStep [] (initial : State Unit) := .start rfl
  have failed := ((((start.step (.put () [107] [1] rfl rfl) trivial).step
    (.flushCalled () rfl) trivial).step
    (.flushLocked () rfl rfl) trivial).step
    (.frozen () rfl rfl rfl) trivial).step
    (.writeFailed () rfl) trivial
  have found := ((failed.step
    (.getCalled () [107] (some ⟨.DurabilityMemory⟩) rfl) trivial).step
    (.getLocked () rfl rfl) trivial).step
    (.getFound () rfl rfl) trivial
  have dropped := (((((found.step (.put () [108] [2] rfl rfl) trivial).step
    (.flushCalled () rfl) trivial).step
    (.flushLocked () rfl rfl) trivial).step
    (.frozen () rfl rfl rfl) trivial).step
    (.blobWritten () rfl) trivial).step
    (.flushReturned () rfl rfl) trivial
  have missed := ((dropped.step
    (.getCalled () [107] (some ⟨.DurabilityMemory⟩) rfl) trivial).step
    (.getLocked () rfl rfl) trivial).step
    (.getMissed () rfl (fun _ => rfl)) trivial
  have run : ∃ s, Run system anyStep forgottenTrace s := ⟨_, ((missed.step
    (.blobPassed () rfl rfl) trivial).step
    (.blobPassed () rfl rfl) trivial).step
    (.scanEnded () rfl) trivial⟩
  refine ⟨run, ?_⟩
  obtain ⟨s, run⟩ := run
  obtain ⟨⟨-, kept, -⟩, gets⟩ := gets_linearize_kept_writes run (by decide)
  obtain ⟨q, -, first⟩ :=
    gets ⟨(), [107], .DurabilityMemory, .ok [1], _, List.drop_suffix 12 forgottenTrace⟩
  obtain ⟨q', -, second⟩ := gets ⟨(), [107], .DurabilityMemory, _, _, List.suffix_refl _⟩
  exact ⟨kept, ⟨q, first⟩, q', second⟩

end Gets

end FizzbeeMbt.GoStore
