import FizzbeeMbt.GoStore.Locks

/-! The segments of the Go store under failing writes and concurrent Flushes: no
blob is written twice, and the blob loop of Get meets each of them once. -/

namespace FizzbeeMbt.GoStore

open FizzbeeMbt.Maps FizzbeeMbt.Deltas FizzbeeMbt.Runs

variable {Client : Type}

section Numbers

/-- How many Flushes have frozen a buffer. -/
def freezes (trace : Trace Client) : Nat := trace.countP isFrozen

def attemptOf : Event Client → Option Nat
  | .blobWritten _ flushID => some flushID
  | .writeFailed _ flushID => some flushID
  | _ => none

/-- The numbers of the blobs that Flush calls have written or failed to write,
newest first. -/
def attempts (trace : Trace Client) : List Nat := trace.filterMap attemptOf

/-- The blob keys that the loop of Get tries from segment `i` down to 1. -/
def triedKeys : Nat → List String
  | 0 => []
  | i + 1 => blobKey (i + 1) :: triedKeys i

theorem scanBlobs_triedKeys (readBlob : String → Except BlobError Data) (key : Bytes) (n : Nat) :
    scanBlobs readBlob key n =
      ((triedKeys n).findSome? fun blobKey => scanBlob (readBlob blobKey) key).getD
        (.error .KEY_NOT_FOUND) := by
  induction n with
  | zero => rfl
  | succ n ih =>
      simp only [scanBlobs, triedKeys, List.findSome?_cons]
      cases scanBlob (readBlob (blobKey (n + 1))) key with
      | none => exact ih
      | some answer => rfl

/-- A Get that misses memory answers as the first of the tried blobs that answers. -/
theorem get_triedKeys (kv : KVStore) (readBlob : String → Except BlobError Data) (key : Bytes)
    (opts : Option ReadOptions)
    (missed : durabilityOf opts = .DurabilityMemory → kv.getMemory key = none) :
    kv.Get readBlob key opts =
      ((triedKeys kv.flushID).findSome? fun blobKey => scanBlob (readBlob blobKey) key).getD
        (.error .KEY_NOT_FOUND) := by
  rw [← scanBlobs_triedKeys]
  unfold KVStore.Get
  cases level : durabilityOf opts with
  | DurabilityRemote => rfl
  | DurabilityMemory => simp only [missed level]

theorem mem_triedKeys (key : String) (n : Nat) :
    key ∈ triedKeys n ↔ ∃ i, 1 ≤ i ∧ i ≤ n ∧ key = blobKey i := by
  induction n with
  | zero =>
      simp only [triedKeys, List.not_mem_nil, false_iff]
      rintro ⟨i, positive, bound, -⟩
      omega
  | succ n ih =>
      simp only [triedKeys, List.mem_cons, ih]
      constructor
      · rintro (rfl | ⟨i, positive, bound, rfl⟩)
        · exact ⟨n + 1, by omega, le_refl _, rfl⟩
        · exact ⟨i, positive, by omega, rfl⟩
      · rintro ⟨i, positive, bound, rfl⟩
        rcases Nat.lt_or_eq_of_le bound with below | rfl
        · exact Or.inr ⟨i, positive, by omega, rfl⟩
        · exact Or.inl rfl

/-- The loop tries the numbers in descending order. -/
theorem triedKeys_descending (n : Nat) :
    (triedKeys n).Pairwise fun newer older =>
      ∃ i j, newer = blobKey i ∧ older = blobKey j ∧ j < i := by
  induction n with
  | zero => exact List.Pairwise.nil
  | succ n ih =>
      refine List.pairwise_cons.mpr ⟨?_, ih⟩
      intro older member
      obtain ⟨j, -, bound, rfl⟩ := (mem_triedKeys older n).mp member
      exact ⟨n + 1, j, rfl, rfl, by omega⟩

theorem triedKeys_nodup (n : Nat) : (triedKeys n).Nodup := by
  refine (triedKeys_descending n).imp ?_
  rintro newer older ⟨i, j, rfl, rfl, below⟩ same
  rw [blobKey_inj] at same
  omega

theorem freezes_mono {early late : Trace Client} (order : early <:+ late) :
    freezes early ≤ freezes late :=
  order.sublist.countP_le

end Numbers

section Steps

variable [DecidableEq Client]

/-- All that a step can do to the counter, the blobs and the pending writes. -/
inductive Numbered (s s' : State Client) : Event Client → Prop
  | freezes (c : Client) (locked : s.thread c = .flushLocked)
      (counted : s'.store.flushID = s.store.flushID + 1) (kept : s'.bucket = s.bucket)
      (writing : s'.thread c = .flushWriting (s.store.flushID + 1) s.store.freeze.1) :
      Numbered s s' (.frozen c)
  | writes (c : Client) (flushID : Nat) (bufMap : Map Bytes Bytes)
      (writing : s.thread c = .flushWriting flushID bufMap)
      (counted : s'.store.flushID = s.store.flushID)
      (written : s'.bucket = s.bucket.WriteAll (blobKey flushID) (Marshal bufMap))
      (moved : s'.thread c = .flushClearing) :
      Numbered s s' (.blobWritten c flushID)
  | fails (c : Client) (flushID : Nat) (bufMap : Map Bytes Bytes)
      (writing : s.thread c = .flushWriting flushID bufMap)
      (counted : s'.store.flushID = s.store.flushID) (kept : s'.bucket = s.bucket)
      (moved : s'.thread c = .idle) :
      Numbered s s' (.writeFailed c flushID)
  | quiet (event : Event Client) (unfrozen : isFrozen event = false)
      (silent : attemptOf event = none)
      (counted : s'.store.flushID = s.store.flushID) (kept : s'.bucket = s.bucket)
      (waiting : ∀ flushID bufMap, s'.thread (actor event) ≠ .flushWriting flushID bufMap) :
      Numbered s s' event

theorem step_numbered {s s' : State Client} {event : Event Client} (taken : Step s event s') :
    Numbered s s' event := by
  cases taken with
  | frozen c locked free filled =>
      exact .freezes c locked rfl rfl (move_thread_self s c _)
  | blobWritten c writing =>
      exact .writes c _ _ writing rfl rfl (move_thread_self s c _)
  | writeFailed c writing =>
      exact .fails c _ _ writing rfl rfl (move_thread_self s c _)
  | put c key value idle free => exact .quiet _ rfl rfl rfl rfl (by simp [actor, idle])
  | delete c key idle free => exact .quiet _ rfl rfl rfl rfl (by simp [actor, idle])
  | flushReturned c clearing free =>
      refine .quiet _ rfl rfl rfl rfl ?_
      simp [actor, State.move, State.unlockFlush]
  | _ =>
      refine .quiet _ rfl rfl rfl rfl ?_
      simp [actor, State.move, State.unlockMu, State.unlockFlush]

end Steps

section Segments

variable [DecidableEq Client]

/-- The instant just before the freeze that a write of `c` at `past` comes from. -/
def freezeOf (c : Client) (past : Trace Client) : Trace Client := before (isFrozenBy c) past

/-- The last freeze of `c` is the one that drew the number `flushID`. -/
structure FrozenAs (trace : Trace Client) (c : Client) (flushID : Nat) : Prop where
  froze : .frozen c :: freezeOf c trace <:+ trace
  number : flushID = freezes (freezeOf c trace) + 1

structure Segments (trace : Trace Client) (s : State Client) : Prop where
  counter : s.store.flushID = freezes trace
  numbers : ∀ id ∈ attempts trace, 1 ≤ id ∧ id ≤ freezes trace
  ordered : (attempts trace).Pairwise (· > ·)
  pending : ∀ c flushID bufMap, s.thread c = .flushWriting flushID bufMap →
    FrozenAs trace c flushID ∧ flushID ≤ freezes trace ∧ ∀ id ∈ attempts trace, id < flushID
  blobs : ∀ key, s.bucket key ≠ none →
    ∃ c flushID past, .blobWritten c flushID :: past <:+ trace ∧ key = blobKey flushID

theorem FrozenAs.later {trace : Trace Client} {c : Client} {flushID : Nat}
    (frozen : FrozenAs trace c flushID) (event : Event Client)
    (unfrozen : isFrozen event = false) : FrozenAs (event :: trace) c flushID := by
  have other : isFrozenBy c event = false := by
    cases event <;> first | rfl | cases unfrozen
  have same : freezeOf c (event :: trace) = freezeOf c trace := before_miss _ _ _ other
  constructor
  · rw [same]
    exact frozen.froze.trans (List.suffix_cons event trace)
  · rw [same]
    exact frozen.number

omit [DecidableEq Client] in
theorem freezes_unfrozen (event : Event Client) (trace : Trace Client)
    (unfrozen : isFrozen event = false) : freezes (event :: trace) = freezes trace := by
  simp [freezes, unfrozen]

omit [DecidableEq Client] in
theorem freezes_frozen (c : Client) (trace : Trace Client) :
    freezes (.frozen c :: trace) = freezes trace + 1 :=
  List.countP_cons_of_pos rfl

/-- A step that freezes nothing and attempts no write. -/
theorem segments_quiet {trace : Trace Client} {s s' : State Client} {event : Event Client}
    (segments : Segments trace s) (taken : Step s event s')
    (unfrozen : isFrozen event = false) (silent : attemptOf event = none)
    (counted : s'.store.flushID = s.store.flushID) (kept : s'.bucket = s.bucket)
    (waiting : ∀ flushID bufMap, s'.thread (actor event) ≠ .flushWriting flushID bufMap) :
    Segments (event :: trace) s' := by
  have none : attempts (event :: trace) = attempts trace := by simp [attempts, silent]
  have same := freezes_unfrozen event trace unfrozen
  constructor
  · rw [counted, same, segments.counter]
  · rw [none, same]
    exact segments.numbers
  · rw [none]
    exact segments.ordered
  · intro c flushID bufMap writing
    have differ : c ≠ actor event := by
      rintro rfl
      exact waiting _ _ writing
    rw [step_thread_other taken c differ] at writing
    obtain ⟨frozen, bound, above⟩ := segments.pending c flushID bufMap writing
    rw [none, same]
    exact ⟨frozen.later event unfrozen, bound, above⟩
  · intro key present
    rw [kept] at present
    obtain ⟨c, flushID, past, written, name⟩ := segments.blobs key present
    exact ⟨c, flushID, past, written.trans (List.suffix_cons _ _), name⟩

theorem segments_frozen {trace : Trace Client} {s s' : State Client} {c : Client}
    (segments : Segments trace s) (locks : Locks s) (taken : Step s (.frozen c) s')
    (locked : s.thread c = .flushLocked)
    (counted : s'.store.flushID = s.store.flushID + 1) (kept : s'.bucket = s.bucket)
    (moved : s'.thread c = .flushWriting (s.store.flushID + 1) s.store.freeze.1) :
    Segments (.frozen c :: trace) s' := by
  have none : attempts (.frozen c :: trace) = attempts trace := rfl
  have more := freezes_frozen c trace
  constructor
  · rw [counted, more, segments.counter]
  · intro id member
    obtain ⟨positive, bound⟩ := segments.numbers id member
    exact ⟨positive, by omega⟩
  · exact segments.ordered
  · intro c' flushID bufMap writing
    by_cases own : c' = c
    · subst own
      rw [moved] at writing
      obtain ⟨rfl, -⟩ := Thread.flushWriting.inj writing
      have instant : freezeOf c' (.frozen c' :: trace) = trace :=
        before_hit _ _ _ (by simp [isFrozenBy])
      refine ⟨⟨?_, ?_⟩, ?_, ?_⟩
      · rw [instant]
      · rw [instant, segments.counter]
      · rw [more, segments.counter]
      · intro id member
        have bound := (segments.numbers id member).2
        rw [segments.counter]
        omega
    · rw [step_thread_other taken c' own] at writing
      exact absurd (locks.flusher c c' (by rw [locked]; rfl) (by rw [writing]; rfl)) own
  · intro key present
    rw [kept] at present
    obtain ⟨c', flushID, past, written, name⟩ := segments.blobs key present
    exact ⟨c', flushID, past, written.trans (List.suffix_cons _ _), name⟩

/-- The one write that can be pending ends, with or without its blob. -/
theorem segments_attempted {trace : Trace Client} {s s' : State Client} {event : Event Client}
    {flushID : Nat} {bufMap : Map Bytes Bytes}
    (segments : Segments trace s) (locks : Locks s) (taken : Step s event s')
    (unfrozen : isFrozen event = false) (attempt : attemptOf event = some flushID)
    (writing : s.thread (actor event) = .flushWriting flushID bufMap)
    (counted : s'.store.flushID = s.store.flushID)
    (moved : ∀ flushID bufMap, s'.thread (actor event) ≠ .flushWriting flushID bufMap)
    (blobs : ∀ key, s'.bucket key ≠ none → s.bucket key ≠ none ∨
      ∃ c, event = .blobWritten c flushID ∧ key = blobKey flushID) :
    Segments (event :: trace) s' := by
  obtain ⟨frozen, bound, above⟩ := segments.pending _ flushID bufMap writing
  have one : attempts (event :: trace) = flushID :: attempts trace := by
    simp [attempts, attempt]
  have same := freezes_unfrozen event trace unfrozen
  constructor
  · rw [counted, same, segments.counter]
  · rw [one, same]
    intro id member
    rcases List.mem_cons.mp member with rfl | earlier
    · exact ⟨by rw [frozen.number]; omega, bound⟩
    · exact segments.numbers id earlier
  · rw [one]
    exact List.pairwise_cons.mpr ⟨above, segments.ordered⟩
  · intro c other otherMap pending
    have differ : c ≠ actor event := by
      rintro rfl
      exact moved _ _ pending
    rw [step_thread_other taken c differ] at pending
    exact absurd (locks.flusher _ c (by rw [writing]; rfl) (by rw [pending]; rfl)) differ
  · intro key present
    rcases blobs key present with old | ⟨c, rfl, name⟩
    · obtain ⟨c, id, past, written, name⟩ := segments.blobs key old
      exact ⟨c, id, past, written.trans (List.suffix_cons _ _), name⟩
    · exact ⟨c, flushID, trace, List.suffix_refl _, name⟩

theorem segments_step {trace : Trace Client} {s s' : State Client} {event : Event Client}
    (segments : Segments trace s) (locks : Locks s) (taken : Step s event s') :
    Segments (event :: trace) s' := by
  cases step_numbered taken with
  | quiet _ unfrozen silent counted kept waiting =>
      exact segments_quiet segments taken unfrozen silent counted kept waiting
  | freezes c locked counted kept moved =>
      exact segments_frozen segments locks taken locked counted kept moved
  | fails c flushID bufMap writing counted kept moved =>
      refine segments_attempted segments locks taken rfl rfl writing counted
        (by simp [actor, moved]) ?_
      intro key present
      exact Or.inl (kept ▸ present)
  | writes c flushID bufMap writing counted written moved =>
      refine segments_attempted segments locks taken rfl rfl writing counted
        (by simp [actor, moved]) ?_
      intro key present
      by_cases name : key = blobKey flushID
      · exact Or.inr ⟨c, rfl, name⟩
      · refine Or.inl ?_
        simpa [written, Bucket.WriteAll, name] using present

theorem segments_run {admits : Trace Client → State Client → Event Client → Prop}
    {trace : Trace Client} {s : State Client} (run : Run system admits trace s) :
    Segments trace s := by
  apply run.invariant Segments
  · intro s start
    subst start
    constructor
    · rfl
    · intro id member
      cases member
    · exact List.Pairwise.nil
    · intro c flushID bufMap writing
      cases writing
    · intro key present
      exact absurd rfl present
  · intro trace s event s' before segments _ taken
    exact segments_step segments (locks_run before) taken

end Segments

section Loop

variable [DecidableEq Client]

/-- The blobs that the loop of a Get of `c` has passed since it began in `s₀`, in order;
the other clients take their steps in between. -/
inductive LoopFrom (c : Client) (s₀ : State Client) : List String → State Client → Prop
  | begins : LoopFrom c s₀ [] s₀
  | beside {tried : List String} {s s' : State Client} {event : Event Client}
      (before : LoopFrom c s₀ tried s) (other : c ≠ actor event) (taken : Step s event s') :
      LoopFrom c s₀ tried s'
  | passes {tried : List String} {s s' : State Client} {key : Bytes}
      {durability : DurabilityLevel} {i : Nat} (before : LoopFrom c s₀ tried s)
      (scanning : s.thread c = .getScanning key durability i)
      (taken : Step s (.blobPassed c) s') :
      LoopFrom c s₀ (tried ++ [blobKey i]) s'

/-- What the loop does next, with the blobs `left` to try. -/
def loopEvent (s : State Client) (c : Client) (key : Bytes) (durability : DurabilityLevel) :
    List String → Event Client
  | [] => .getReturned c key durability (.error .KEY_NOT_FOUND)
  | blob :: _ =>
      match scanBlob (s.bucket.ReadAll blob) key with
      | none => .blobPassed c
      | some answer => .getReturned c key durability answer

/-- The loop takes that step and no other: it reads the blob of its index. -/
theorem loop_step {s : State Client} {event : Event Client} {key : Bytes}
    {durability : DurabilityLevel} {i : Nat}
    (scanning : s.thread (actor event) = .getScanning key durability i) :
    (∃ s', Step s event s') ↔
      event = loopEvent s (actor event) key durability (triedKeys i) := by
  constructor
  · rintro ⟨s', taken⟩
    cases taken with
    | blobAnswered c reading answered =>
        obtain ⟨rfl, rfl, rfl⟩ := Thread.getScanning.inj (scanning.symm.trans reading)
        simp only [triedKeys, loopEvent, answered, actor]
    | blobPassed c reading passed =>
        obtain ⟨rfl, rfl, rfl⟩ := Thread.getScanning.inj (scanning.symm.trans reading)
        simp only [triedKeys, loopEvent, passed, actor]
    | scanEnded c reading =>
        obtain ⟨rfl, rfl, rfl⟩ := Thread.getScanning.inj (scanning.symm.trans reading)
        rfl
    | _ => simp_all [actor]
  · intro next
    rw [next]
    cases i with
    | zero => exact ⟨_, .scanEnded _ scanning⟩
    | succ i =>
        simp only [triedKeys, loopEvent]
        cases answered : scanBlob (s.bucket.ReadAll (blobKey (i + 1))) key with
        | none => exact ⟨_, .blobPassed _ scanning answered⟩
        | some answer => exact ⟨_, .blobAnswered _ scanning answered⟩

/-- What a Get does once it has `mu`. -/
def lockedEvent (s : State Client) (c : Client) (key : Bytes) (durability : DurabilityLevel) :
    Event Client :=
  match durability with
  | .DurabilityRemote => .getMissed c
  | .DurabilityMemory =>
      match s.store.getMemory key with
      | none => .getMissed c
      | some answer => .getReturned c key .DurabilityMemory answer

/-- A Get leaves its lock into the loop, unless it finds its key in memory. -/
theorem locked_step {s : State Client} {event : Event Client} {key : Bytes}
    {durability : DurabilityLevel}
    (locked : s.thread (actor event) = .getLocked key durability) :
    (∃ s', Step s event s') ↔ event = lockedEvent s (actor event) key durability := by
  constructor
  · rintro ⟨s', taken⟩
    cases taken with
    | getFound c looking found =>
        obtain ⟨rfl, rfl⟩ := Thread.getLocked.inj (locked.symm.trans looking)
        simp only [lockedEvent, found, actor]
    | getMissed c looking missed =>
        obtain ⟨rfl, rfl⟩ := Thread.getLocked.inj (locked.symm.trans looking)
        cases durability with
        | DurabilityRemote => rfl
        | DurabilityMemory => simp only [lockedEvent, missed rfl, actor]
    | _ => simp_all [actor]
  · intro next
    rw [next]
    cases durability with
    | DurabilityRemote => exact ⟨_, .getMissed _ locked fun memory => by cases memory⟩
    | DurabilityMemory =>
        simp only [lockedEvent]
        cases found : s.store.getMemory key with
        | none => exact ⟨_, .getMissed _ locked fun _ => found⟩
        | some answer => exact ⟨_, .getFound _ locked found⟩

/-- While a Get holds `mu`, no Flush draws a number. -/
theorem counter_beside {s s' : State Client} {event : Event Client} (locks : Locks s)
    (taken : Step s event s') (c : Client) (holds : (s.thread c).holdsMu = true) :
    s'.store.flushID = s.store.flushID := by
  cases taken with
  | frozen c' locked free filled =>
      rw [locks.mu c holds] at free
      cases free
  | _ => rfl

/-- The loop of a Get has tried the blobs from the counter down to its index. -/
theorem loop_tries {admits : Trace Client → State Client → Event Client → Prop}
    {trace : Trace Client} {s s₀ s' : State Client} (run : Run system admits trace s)
    {c : Client} {key : Bytes} {durability : DurabilityLevel}
    (locked : s.thread c = .getLocked key durability) (missed : Step s (.getMissed c) s₀)
    {tried : List String} (loop : LoopFrom c s₀ tried s') :
    Locks s' ∧ s'.store.flushID = s.store.flushID ∧
      ∃ i, s'.thread c = .getScanning key durability i ∧
        tried ++ triedKeys i = triedKeys s.store.flushID := by
  induction loop with
  | begins =>
      refine ⟨locks_step (locks_run run) missed, ?_⟩
      cases missed with
      | getMissed c looking missed =>
          obtain ⟨rfl, rfl⟩ := Thread.getLocked.inj (locked.symm.trans looking)
          exact ⟨rfl, s.store.flushID, move_thread_self s c _, rfl⟩
  | @beside tried s₁ s₂ event before other taken ih =>
      obtain ⟨locks, counter, i, scanning, split⟩ := ih
      have still := counter_beside locks taken c (by rw [scanning]; rfl)
      refine ⟨locks_step locks taken, still.trans counter, i, ?_, split⟩
      rw [step_thread_other taken c other, scanning]
  | @passes tried s₁ s₂ _ _ _ before scanning' taken ih =>
      obtain ⟨locks, counter, i, scanning, split⟩ := ih
      obtain ⟨rfl, rfl, rfl⟩ := Thread.getScanning.inj (scanning.symm.trans scanning')
      have still := counter_beside locks taken c (by rw [scanning]; rfl)
      refine ⟨locks_step locks taken, still.trans counter, ?_⟩
      cases taken with
      | blobPassed c reading passed =>
          obtain ⟨rfl, rfl, rfl⟩ := Thread.getScanning.inj (scanning.symm.trans reading)
          refine ⟨_, move_thread_self s₁ c _, ?_⟩
          rw [List.append_assoc]
          exact split

end Loop

section Runs

variable [DecidableEq Client] {trace : Trace Client} {s : State Client}

/-- A written blob has the number of the freeze it comes from. -/
theorem blob_frozen {admits : Trace Client → State Client → Event Client → Prop}
    (run : Run system admits trace s) {c : Client} {flushID : Nat} {past : Trace Client}
    (written : .blobWritten c flushID :: past <:+ trace) : FrozenAs past c flushID := by
  obtain ⟨s₁, s₂, before, -, taken⟩ := run.emitted written
  cases step_numbered taken with
  | writes _ _ bufMap writing _ _ _ =>
      exact ((segments_run before).pending c flushID bufMap writing).1
  | quiet _ _ silent _ _ _ => cases silent

/-- A step leaves every blob alone that is there. -/
theorem step_keeps_blobs {admits : Trace Client → State Client → Event Client → Prop}
    (run : Run system admits trace s) {event : Event Client} {s' : State Client}
    (taken : Step s event s') (key : String) (data : Data) (held : s.bucket key = some data) :
    s'.bucket key = some data := by
  have segments := segments_run run
  cases step_numbered taken with
  | quiet _ _ _ _ kept _ => exact kept ▸ held
  | freezes c _ _ kept _ => exact kept ▸ held
  | fails c flushID bufMap _ _ kept _ => exact kept ▸ held
  | writes c flushID bufMap writing _ written _ =>
      obtain ⟨c', id, past, earlier, name⟩ := segments.blobs key (by simp [held])
      have attempted : id ∈ attempts trace :=
        List.mem_filterMap.mpr ⟨_, earlier.subset List.mem_cons_self, rfl⟩
      have below := (segments.pending c flushID bufMap writing).2.2 id attempted
      have differ : key ≠ blobKey flushID := by
        rw [name, Ne, blobKey_inj]
        omega
      simpa [written, Bucket.WriteAll, differ] using held

theorem written_present {admits : Trace Client → State Client → Event Client → Prop}
    (run : Run system admits trace s) (c : Client) (flushID : Nat)
    (written : .blobWritten c flushID ∈ trace) : s.bucket (blobKey flushID) ≠ none := by
  revert written
  apply run.invariant (fun trace s =>
    .blobWritten c flushID ∈ trace → s.bucket (blobKey flushID) ≠ none)
  · intro s start written
    cases written
  · intro trace s event s' before ih _ taken written
    rcases List.mem_cons.mp written with rfl | earlier
    · cases step_numbered taken with
      | writes _ _ bufMap _ _ written _ => simp [written, Bucket.WriteAll]
      | quiet _ _ silent _ _ _ => cases silent
    · obtain ⟨data, held⟩ := Option.ne_none_iff_exists'.mp (ih earlier)
      simp [step_keeps_blobs before taken _ data held]

theorem resumed_keeps_blobs (run : Run system anyStep trace s) {later : Trace Client}
    {s' : State Client} (onward : Run (system.resumed s) anyStep later s') (key : String)
    (data : Data) (held : s.bucket key = some data) : s'.bucket key = some data := by
  apply onward.invariant (fun _ s' => s'.bucket key = some data)
  · intro s' start
    obtain rfl : s' = s := start
    exact held
  · intro later s₁ event s₂ between held _ taken
    exact step_keeps_blobs (run.resume between) taken key data held

/-- The blob under `key` was written with the content frozen right after `instant`. -/
def ComesFrom (trace : Trace Client) (key : String) (instant : Trace Client) : Prop :=
  ∃ c flushID past, .blobWritten c flushID :: past <:+ trace ∧ key = blobKey flushID ∧
    instant = freezeOf c past ∧ .frozen c :: instant <:+ past

theorem comesFrom_number (run : Run system anyStep trace s) {flushID : Nat}
    {instant : Trace Client} (source : ComesFrom trace (blobKey flushID) instant) :
    instant <:+ trace ∧ flushID = freezes instant + 1 := by
  obtain ⟨c, id, past, written, name, rfl, froze⟩ := source
  obtain rfl := (blobKey_inj flushID id).mp name
  refine ⟨?_, (blob_frozen run written).number⟩
  exact (List.suffix_cons _ _).trans (froze.trans ((List.suffix_cons _ _).trans written))

omit [DecidableEq Client] in
/-- Of two instants of a run the one with fewer freezes behind it is the earlier one. -/
theorem earlier_of_freezes {early late : Trace Client} (first : early <:+ trace)
    (second : late <:+ trace) (fewer : freezes early < freezes late) :
    early <:+ late ∧ early ≠ late := by
  refine ⟨?_, ?_⟩
  · rcases List.suffix_or_suffix_of_suffix first second with order | order
    · exact order
    · exact absurd (freezes_mono order) (Nat.not_le_of_lt fewer)
  · rintro rfl
    exact absurd fewer (Nat.lt_irrefl _)

/-- Whatever writes fail and however Flushes overlap, no blob key is used twice, a
blob never changes once it is there, the bucket holds what Flushes wrote, and the tried
keys name every blob exactly once, from the latest freeze back to the earliest. They are
what the loop of Get tries: as one call it answers by the first of them that answers, and
beside other clients the next step of a Get that misses memory always reads the next of
them, passes it where it does not answer, and gives up only after the last. -/
theorem segments_append_only (run : Run system anyStep trace s) :
    ((attempts trace).map blobKey).Nodup ∧
      (∀ later s', Run (system.resumed s) anyStep later s' →
        ∀ key data, s.bucket key = some data → s'.bucket key = some data) ∧
      (∀ key, s.bucket key ≠ none ↔
        ∃ c flushID, .blobWritten c flushID ∈ trace ∧ key = blobKey flushID) ∧
      (∀ c flushID, .blobWritten c flushID ∈ trace →
        (triedKeys s.store.flushID).count (blobKey flushID) = 1 ∧
          ∃ instant, ComesFrom trace (blobKey flushID) instant) ∧
      ((triedKeys s.store.flushID).Pairwise fun newer older =>
        ∀ late early, ComesFrom trace newer late → ComesFrom trace older early →
          early <:+ late ∧ early ≠ late) ∧
      (∀ readBlob key opts,
        (durabilityOf opts = .DurabilityMemory → s.store.getMemory key = none) →
          s.store.Get readBlob key opts =
            ((triedKeys s.store.flushID).findSome? fun blob => scanBlob (readBlob blob) key).getD
              (.error .KEY_NOT_FOUND)) ∧
      ∀ c key durability, s.thread c = .getLocked key durability →
        (∀ event, actor event = c →
          ((∃ s₀, Step s event s₀) ↔ event = lockedEvent s c key durability)) ∧
        ∀ s₀ tried s', Step s (.getMissed c) s₀ → LoopFrom c s₀ tried s' →
          s'.store.flushID = s.store.flushID ∧
            ∃ left, tried ++ left = triedKeys s.store.flushID ∧
              ∀ event, actor event = c →
                ((∃ s'', Step s' event s'') ↔ event = loopEvent s' c key durability left) := by
  have segments := segments_run run
  refine ⟨?_, fun later s' onward => resumed_keeps_blobs run onward, ?_, ?_, ?_,
    fun readBlob key opts => get_triedKeys s.store readBlob key opts, ?_⟩
  · have distinct : (attempts trace).Nodup := segments.ordered.imp fun above => Nat.ne_of_gt above
    exact distinct.map blobKey_injective
  · intro key
    constructor
    · intro present
      obtain ⟨c, flushID, past, written, name⟩ := segments.blobs key present
      exact ⟨c, flushID, written.subset List.mem_cons_self, name⟩
    · rintro ⟨c, flushID, written, rfl⟩
      exact written_present run c flushID written
  · intro c flushID written
    have attempted : flushID ∈ attempts trace := List.mem_filterMap.mpr ⟨_, written, rfl⟩
    obtain ⟨positive, bound⟩ := segments.numbers flushID attempted
    rw [segments.counter]
    constructor
    · apply List.count_eq_one_of_mem (triedKeys_nodup _)
      exact (mem_triedKeys _ _).mpr ⟨flushID, positive, bound, rfl⟩
    · obtain ⟨newer, past, split⟩ := List.append_of_mem written
      have order : .blobWritten c flushID :: past <:+ trace := split ▸ List.suffix_append newer _
      exact ⟨_, c, flushID, past, order, rfl, rfl, (blob_frozen run order).froze⟩
  · apply (triedKeys_descending _).imp
    rintro newer older ⟨i, j, rfl, rfl, below⟩ late early newest oldest
    obtain ⟨second, number⟩ := comesFrom_number run newest
    obtain ⟨first, number'⟩ := comesFrom_number run oldest
    exact earlier_of_freezes first second (by omega)
  · intro c key durability locked
    constructor
    · rintro event rfl
      exact locked_step locked
    · intro s₀ tried s' missed loop
      obtain ⟨-, counter, i, scanning, split⟩ := loop_tries run locked missed loop
      refine ⟨counter, triedKeys i, split, ?_⟩
      rintro event rfl
      exact loop_step scanning

/-- A Flush whose write fails while another caller waits for its lock, the Flush of that
caller, and a Get of another key. -/
def overlappingTrace : Trace Nat :=
  [.getLocked 2, .getCalled 2 [108] .DurabilityRemote, .blobWritten 1 2, .frozen 1,
    .flushLocked 1, .writeFailed 0 1, .put 2 [107] [2], .frozen 0, .flushCalled 1,
    .flushLocked 0, .flushCalled 0, .put 2 [107] [1]]

theorem segments_append_only_overlapping :
    ∃ s : State Nat, Run system anyStep overlappingTrace s ∧
      ((attempts overlappingTrace).map blobKey).Nodup ∧
      attempts overlappingTrace = [2, 1] ∧
      (triedKeys s.store.flushID).count (blobKey 2) = 1 ∧
      ∃ s₀, Step s (.getMissed 2) s₀ := by
  have start : Run system anyStep [] (initial : State Nat) := .start rfl
  have failed := ((((((start.step (.put 2 [107] [1] rfl rfl) trivial).step
    (.flushCalled 0 rfl) trivial).step
    (.flushLocked 0 rfl rfl) trivial).step
    (.flushCalled 1 rfl) trivial).step
    (.frozen 0 rfl rfl rfl) trivial).step
    (.put 2 [107] [2] rfl rfl) trivial).step
    (.writeFailed 0 rfl) trivial
  have run := ((((failed.step (.flushLocked 1 rfl rfl) trivial).step
    (.frozen 1 rfl rfl rfl) trivial).step
    (.blobWritten 1 rfl) trivial).step
    (.getCalled 2 [108] none rfl) trivial).step
    (.getLocked 2 rfl rfl) trivial
  have second : .blobWritten 1 2 ∈ overlappingTrace := by simp [overlappingTrace]
  obtain ⟨distinct, -, -, tried, -, -, loops⟩ := segments_append_only run
  exact ⟨_, run, distinct, rfl, (tried 1 2 second).1,
    ((loops 2 [108] .DurabilityRemote rfl).1 (.getMissed 2) rfl).mpr rfl⟩

end Runs

end FizzbeeMbt.GoStore
