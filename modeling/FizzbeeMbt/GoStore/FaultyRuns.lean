import FizzbeeMbt.GoStore.FailedReads
import FizzbeeMbt.GoStore.Specification

/-! Runs of the Go store in which any blob write and any blob read may fail. -/

namespace FizzbeeMbt.GoStore

open FizzbeeMbt.Maps FizzbeeMbt.Deltas FizzbeeMbt.Runs

variable {Client : Type} [DecidableEq Client]

/-- The steps of the store, and those of a Get that goes on below a blob whose read
has failed. -/
inductive FaultyStep : State Client → Event Client → State Client → Prop
  | step {s s' : State Client} {event : Event Client} (taken : Step s event s') :
      FaultyStep s event s'
  | unread {s : State Client} (c : Client) {key : Bytes} {durability : DurabilityLevel} {i : Nat}
      (error : BlobError) (scanning : s.thread c = .getScanning key durability (i + 1))
      (passed : scanBlob (.error error) key = none) :
      FaultyStep s (.blobPassed c) (s.move c (.getScanning key durability i))

def faultySystem : System (State Client) (Event Client) where
  start := fun s => s = initial
  step := FaultyStep

theorem faulty_of_run {admits : Trace Client → State Client → Event Client → Prop}
    {trace : Trace Client} {s : State Client} (run : Run system admits trace s) :
    Run faultySystem anyStep trace s := by
  induction run with
  | start found => exact .start found
  | step before taken admitted ih => exact ih.step (.step taken) trivial

/-- The instant whose last writes a Get of the durability level reports on. -/
def visibleAt (trace : Trace Client) (durability : DurabilityLevel) : Trace Client :=
  match durability with
  | .DurabilityRemote => landedAt trace
  | .DurabilityMemory => trace

section Steps

theorem faulty_thread_other {s s' : State Client} {event : Event Client}
    (taken : FaultyStep s event s') (other : Client) (differ : other ≠ actor event) :
    s'.thread other = s.thread other := by
  cases taken with
  | step taken => exact step_thread_other taken other differ
  | unread c error scanning passed => exact move_thread_other s c other _ differ

theorem faulty_numbered {s s' : State Client} {event : Event Client}
    (taken : FaultyStep s event s') : Numbered s s' event := by
  cases taken with
  | step taken => exact step_numbered taken
  | unread c error scanning passed =>
      refine .quiet _ rfl rfl rfl rfl ?_
      simp [actor]

/-- All that a step can do to the buffers. -/
theorem faulty_buffers {s s' : State Client} {event : Event Client}
    (taken : FaultyStep s event s') :
    (∃ key value, writeOf event = some (key, value) ∧
      (∀ k, s'.store.live k = if k = key then some value else s.store.live k) ∧
      s'.store.immutableBuf = s.store.immutableBuf) ∨
    (writeOf event = none ∧ s'.store = s.store.freeze.2) ∨
    (writeOf event = none ∧ s'.store.live = s.store.live ∧
      ∀ immutableBuf ∈ s'.store.immutableBuf, s.store.immutableBuf = some immutableBuf) := by
  cases taken with
  | unread c error scanning passed => exact Or.inr (Or.inr ⟨rfl, rfl, fun _ held => held⟩)
  | step taken =>
      cases taken with
      | put c key value idle free =>
          exact Or.inl ⟨key, some value, rfl, fun _ => lookup_insert_if _ _ _ _, rfl⟩
      | delete c key idle free =>
          exact Or.inl ⟨key, none, rfl, fun _ => lookup_insert_if _ _ _ _, rfl⟩
      | frozen c locked free filled => exact Or.inr (Or.inl ⟨rfl, rfl⟩)
      | flushReturned c clearing free =>
          refine Or.inr (Or.inr ⟨rfl, rfl, ?_⟩)
          intro immutableBuf held
          cases held
      | _ => exact Or.inr (Or.inr ⟨rfl, rfl, fun _ held => held⟩)

end Steps

section Records

/-- The entries of a snapshot are the last writes of their keys at the instant. -/
def Records (bufMap : Map Bytes Bytes) (instant : Trace Client) : Prop :=
  ∃ table, Encodes bufMap table ∧ Recalls table (writes instant)

/-- Whatever the store holds it holds from an instant of the run, whole Flushes may be
missing in between. -/
structure Sourced (trace : Trace Client) (s : State Client) : Prop where
  buffered : Recalls s.store.live (writes trace)
  frozen : ∀ immutableBuf ∈ s.store.immutableBuf, ∃ bufMap instant, instant <:+ trace ∧
    immutableBuf = bufMap.rebuild some ∧ Records bufMap instant
  pending : ∀ c flushID bufMap, s.thread c = .flushWriting flushID bufMap →
    Records bufMap (freezeOf c trace)
  blobs : ∀ key data, s.bucket key = some data → ∃ upto bufMap, upto <:+ trace ∧
    data = Marshal bufMap ∧ Records bufMap (landedAt upto)

theorem sourced_buffers {trace : Trace Client} {s s' : State Client} {event : Event Client}
    (sourced : Sourced trace s) (taken : FaultyStep s event s') :
    Recalls s'.store.live (writes (event :: trace)) ∧
      ∀ immutableBuf ∈ s'.store.immutableBuf, ∃ bufMap instant, instant <:+ event :: trace ∧
        immutableBuf = bufMap.rebuild some ∧ Records bufMap instant := by
  have old : ∀ immutableBuf, s.store.immutableBuf = some immutableBuf →
      ∃ bufMap instant, instant <:+ event :: trace ∧ immutableBuf = bufMap.rebuild some ∧
        Records bufMap instant := by
    intro immutableBuf held
    obtain ⟨bufMap, instant, earlier, same, records⟩ := sourced.frozen immutableBuf held
    exact ⟨bufMap, instant, earlier.trans (List.suffix_cons event trace), same, records⟩
  rcases faulty_buffers taken with ⟨key, value, wrote, live, kept⟩ | ⟨silent, froze⟩ |
    ⟨silent, live, kept⟩
  · have written : writes (event :: trace) = (key, value) :: writes trace := by
      simp [writes, wrote]
    have grown : s'.store.live = fun k => if k = key then some value else s.store.live k :=
      funext live
    rw [written, grown]
    exact ⟨sourced.buffered.write key value, fun _ held => old _ (kept ▸ held)⟩
  · rw [froze]
    refine ⟨recalls_nothing _ _ fun _ => rfl, ?_⟩
    rintro _ ⟨⟩
    exact ⟨_, trace, List.suffix_cons event trace, rfl, s.store.live,
      freeze_encodes s.store, sourced.buffered⟩
  · rw [live, writes_quiet event trace silent]
    exact ⟨sourced.buffered, fun _ held => old _ (kept _ held)⟩

theorem sourced_step {trace : Trace Client} {s s' : State Client} {event : Event Client}
    (sourced : Sourced trace s) (taken : FaultyStep s event s') :
    Sourced (event :: trace) s' := by
  obtain ⟨buffered, frozen⟩ := sourced_buffers sourced taken
  have blobs : ∀ key data, s.bucket key = some data → ∃ upto bufMap, upto <:+ event :: trace ∧
      data = Marshal bufMap ∧ Records bufMap (landedAt upto) := by
    intro key data held
    obtain ⟨upto, bufMap, earlier, same, records⟩ := sourced.blobs key data held
    exact ⟨upto, bufMap, earlier.trans (List.suffix_cons event trace), same, records⟩
  have others : ∀ c flushID bufMap, c ≠ actor event →
      s'.thread c = .flushWriting flushID bufMap → Records bufMap (freezeOf c (event :: trace)) := by
    intro c flushID bufMap differ writing
    have missed : isFrozenBy c event = false := by
      cases event <;> simp_all [isFrozenBy, actor, eq_comm]
    rw [freezeOf, before_miss _ _ _ missed]
    rw [faulty_thread_other taken c differ] at writing
    exact sourced.pending c flushID bufMap writing
  refine ⟨buffered, frozen, ?_, ?_⟩
  · intro c flushID bufMap writing
    by_cases own : c = actor event
    · subst own
      cases faulty_numbered taken with
      | quiet _ _ _ _ _ waiting => exact absurd writing (waiting _ _)
      | fails c _ _ _ _ _ moved => exact absurd (moved.symm.trans writing) (by simp)
      | writes c _ _ _ _ _ moved => exact absurd (moved.symm.trans writing) (by simp)
      | freezes c locked _ _ moved =>
          obtain ⟨-, rfl⟩ := Thread.flushWriting.inj (moved.symm.trans writing)
          have instant : freezeOf c (.frozen c :: trace) = trace :=
            before_hit _ _ _ (by simp [isFrozenBy])
          simp only [actor]
          rw [instant]
          exact ⟨s.store.live, freeze_encodes s.store, sourced.buffered⟩
    · exact others c flushID bufMap own writing
  · intro key data held
    cases faulty_numbered taken with
    | quiet _ _ _ _ kept _ => exact blobs key data (kept ▸ held)
    | freezes _ _ _ kept _ => exact blobs key data (kept ▸ held)
    | fails _ _ _ _ _ kept _ => exact blobs key data (kept ▸ held)
    | writes c flushID bufMap writing _ landed moved =>
        by_cases name : key = blobKey flushID
        · subst name
          obtain rfl : Marshal bufMap = data := by simpa [landed, Bucket.WriteAll] using held
          exact ⟨_, bufMap, List.suffix_refl _, rfl, sourced.pending c flushID bufMap writing⟩
        · exact blobs key data (by simpa [landed, Bucket.WriteAll, name] using held)

theorem sourced_run {admits : Trace Client → State Client → Event Client → Prop}
    {trace : Trace Client} {s : State Client} (run : Run faultySystem admits trace s) :
    Sourced trace s := by
  apply run.invariant Sourced
  · intro s start
    obtain rfl : s = initial := start
    refine ⟨recalls_nothing _ _ fun _ => rfl, ?_, ?_, ?_⟩
    · intro immutableBuf held
      cases held
    · intro c flushID bufMap writing
      cases writing
    · intro key data held
      cases held
  · intro _ _ _ _ _ sourced _ taken
    exact sourced_step sourced taken

end Records

section Answers

variable {trace : Trace Client} {s : State Client}

omit [DecidableEq Client] in
theorem recalled (instant : Trace Client) {table : Table Bytes Bytes}
    (recalls : Recalls table (writes instant)) {key : Bytes} {found : Option (Option Bytes)}
    (looked : found = table key) {answer : Except GetError Bytes}
    (answered : found.map (fun value => answerOf (some value)) = some answer) :
    answer = answerOf (latest (writes instant) key) := by
  obtain ⟨value, rfl, rfl⟩ := Option.map_eq_some_iff.mp answered
  rw [recalls key value looked.symm]

theorem Sourced.memory (sourced : Sourced trace s) {key : Bytes}
    {answer : Except GetError Bytes} (found : s.store.getMemory key = some answer) :
    ∃ instant, instant <:+ trace ∧ answer = answerOf (latest (writes instant) key) := by
  cases frozen : s.store.immutableBuf with
  | none =>
      rw [getMemory_unfrozen _ _ frozen] at found
      exact ⟨trace, List.suffix_refl _, recalled trace sourced.buffered rfl found⟩
  | some immutableBuf =>
      obtain ⟨bufMap, instant, earlier, rfl, table, encodes, recalls⟩ :=
        sourced.frozen immutableBuf frozen
      rw [getMemory_frozen _ bufMap table key frozen encodes] at found
      cases live : s.store.live key with
      | some value =>
          rw [live] at found
          exact ⟨trace, List.suffix_refl _, recalled trace sourced.buffered live.symm found⟩
      | none =>
          rw [live, Option.none_or] at found
          exact ⟨instant, earlier, recalled instant recalls rfl found⟩

/-- A blob answers for a key that JSON names as the one asked for. -/
theorem Sourced.blob (sourced : Sourced trace s) {name : String} {asked : Bytes}
    {answer : Except GetError Bytes}
    (answered : scanBlob (s.bucket.ReadAll name) asked = some answer) :
    ∃ upto key, upto <:+ trace ∧ jsonString key = asked ∧
      latest (writes (landedAt upto)) key ≠ none ∧
      answer = answerOf (latest (writes (landedAt upto)) key) := by
  unfold Bucket.ReadAll at answered
  cases held : s.bucket name with
  | none =>
      rw [held] at answered
      cases answered
  | some data =>
      obtain ⟨upto, bufMap, earlier, rfl, table, encodes, recalls⟩ := sourced.blobs name data held
      obtain ⟨decoded, read, -, named⟩ := lookup_unmarshal bufMap
      rw [held] at answered
      simp only [scanBlob, read] at answered
      obtain ⟨val, looked, rfl⟩ := Option.map_eq_some_iff.mp answered
      obtain ⟨key, same, entry, -⟩ := (named asked val).mp looked
      obtain ⟨value, present, rfl⟩ := Option.map_eq_some_iff.mp ((encodes key).symm.trans entry)
      have last := recalls key value present
      refine ⟨upto, key, earlier, same, ?_, ?_⟩
      · rw [last]
        exact Option.some_ne_none value
      · rw [last]
        exact decodeEntry_encodeEntry value

/-- The Get answered as one without failures does for the key at an instant. -/
def Recalled (get : GetReturn trace) (instant : Trace Client) (key : Bytes) : Prop :=
  instant <:+ get.past ∧
    get.answer = answerOf (latest (writes (visibleAt instant get.durability)) key)

/-- What a landed Flush wrote is what either Get reports on at some instant. -/
theorem recalled_of_landed (get : GetReturn trace) {upto : Trace Client} {key : Bytes}
    (earlier : upto <:+ get.past)
    (answers : get.answer = answerOf (latest (writes (landedAt upto)) key)) :
    ∃ instant, Recalled get instant key := by
  obtain ⟨c, asked, durability, answer, past, returned⟩ := get
  cases durability with
  | DurabilityRemote => exact ⟨upto, earlier, answers⟩
  | DurabilityMemory => exact ⟨landedAt upto, (landedAt_suffix upto).trans earlier, answers⟩

/-- Faults make the store answer late and never make it up: whatever blob writes and
reads fail, a Get answers as one without failures does at an instant of the run, if not
for its key then for one that is not UTF-8 and that JSON gives its name. The start of the
run is one of its instants, so that nothing is said of a Get that misses its key; what is
ruled out are values that the key never had, and other errors. -/
theorem faulty_gets_recall (run : Run faultySystem anyStep trace s) (get : GetReturn trace) :
    (∃ instant key, Recalled get instant key ∧
      (key = get.key ∨ ¬ Utf8Valid key ∧ jsonString key = get.key)) ∧
    (Utf8Keys trace → ∃ instant, Recalled get instant get.key) := by
  obtain ⟨c, asked, durability, answer, past, returned⟩ := get
  obtain ⟨s₁, s₂, upto, -, taken⟩ := run.emitted returned
  have sourced := sourced_run upto
  cases taken with
  | step taken =>
      cases taken with
      | getFound c locked found =>
          obtain ⟨instant, recalls⟩ := sourced.memory found
          exact ⟨⟨instant, asked, recalls, Or.inl rfl⟩, fun _ => ⟨instant, recalls⟩⟩
      | scanEnded c scanning =>
          have nothing : Recalled ⟨c, asked, durability, _, past, returned⟩ [] asked := by
            refine ⟨List.nil_suffix, ?_⟩
            cases durability <;> rfl
          exact ⟨⟨[], asked, nothing, Or.inl rfl⟩, fun _ => ⟨[], nothing⟩⟩
      | blobAnswered c scanning answered =>
          obtain ⟨landed, key, earlier, named, written, answers⟩ := sourced.blob answered
          obtain ⟨instant, recalls⟩ :=
            recalled_of_landed ⟨c, asked, durability, answer, past, returned⟩ earlier answers
          refine ⟨⟨instant, key, recalls, ?_⟩, ?_⟩
          · by_cases valid : Utf8Valid key
            · exact Or.inl ((jsonString_valid key valid).symm.trans named)
            · exact Or.inr ⟨valid, named⟩
          · intro keys
            have within : landedAt landed <:+ trace :=
              (landedAt_suffix landed).trans (earlier.trans
                ((List.suffix_cons _ past).trans returned))
            have valid := valid_of_written keys within key written
            obtain rfl : key = asked := (jsonString_valid key valid).symm.trans named
            exact ⟨instant, recalls⟩

/-- A Remote Get that cannot read the newer of two segments. -/
def staleTrace : Trace Unit :=
  [.getReturned () [107] .DurabilityRemote (.ok [1]), .blobPassed (), .getMissed (),
    .getLocked (), .getCalled () [107] .DurabilityRemote,
    .flushReturned (), .blobWritten () 2, .frozen (), .flushLocked (), .flushCalled (),
    .put () [107] [2],
    .flushReturned (), .blobWritten () 1, .frozen (), .flushLocked (), .flushCalled (),
    .put () [107] [1]]

theorem faulty_gets_recall_stale :
    (∃ s, Run faultySystem anyStep staleTrace s) ∧
      ∃ instant : Trace Unit, (.ok [1] : Except GetError Bytes) =
        answerOf (latest (writes (landedAt instant)) [107]) := by
  have start : Run system anyStep [] (initial : State Unit) := .start rfl
  have first := (((((start.step (.put () [107] [1] rfl rfl) trivial).step
    (.flushCalled () rfl) trivial).step
    (.flushLocked () rfl rfl) trivial).step
    (.frozen () rfl rfl rfl) trivial).step
    (.blobWritten () rfl) trivial).step
    (.flushReturned () rfl rfl) trivial
  have second := (((((first.step (.put () [107] [2] rfl rfl) trivial).step
    (.flushCalled () rfl) trivial).step
    (.flushLocked () rfl rfl) trivial).step
    (.frozen () rfl rfl rfl) trivial).step
    (.blobWritten () rfl) trivial).step
    (.flushReturned () rfl rfl) trivial
  have reading := ((second.step
    (.getCalled () [107] none rfl) trivial).step
    (.getLocked () rfl rfl) trivial).step
    (.getMissed () rfl (fun memory => by cases memory)) trivial
  have run : ∃ s, Run faultySystem anyStep staleTrace s := ⟨_, ((faulty_of_run reading).step
    (.unread () .ioError rfl rfl) trivial).step
    (.step (.blobAnswered () rfl rfl)) trivial⟩
  refine ⟨run, ?_⟩
  obtain ⟨s, run⟩ := run
  obtain ⟨instant, recalls⟩ := (faulty_gets_recall run
    ⟨(), [107], .DurabilityRemote, .ok [1], _, List.suffix_refl _⟩).2 (by decide)
  exact ⟨instant, recalls.2⟩

end Answers

end FizzbeeMbt.GoStore
