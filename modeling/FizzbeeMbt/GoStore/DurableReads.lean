import FizzbeeMbt.GoStore.DirtyReads

/-! Gets with `DurabilityRemote`: which prefix of the writes they see, and what a
Flush that returned nil has made durable. -/

namespace FizzbeeMbt.GoStore

open FizzbeeMbt.Maps FizzbeeMbt.Deltas FizzbeeMbt.Runs

variable {Client : Type} [DecidableEq Client]

/-- A Remote Get that returned within the run. -/
structure RemoteGet (trace : Trace Client) where
  c : Client
  key : Bytes
  answer : Except GetError Bytes
  past : Trace Client
  returned : .getReturned c key .DurabilityRemote answer :: past <:+ trace

def RemoteGet.began {trace : Trace Client} (get : RemoteGet trace) : Trace Client :=
  calledAt get.c get.past

def RemoteGet.ended {trace : Trace Client} (get : RemoteGet trace) : Trace Client :=
  .getReturned get.c get.key .DurabilityRemote get.answer :: get.past

/-- A Flush call that returned nil within the run. -/
structure NilFlush (trace : Trace Client) where
  c : Client
  event : Event Client
  past : Trace Client
  returnsNil : event = .flushSkipped c ∨ event = .flushReturned c
  returned : event :: past <:+ trace

def NilFlush.began {trace : Trace Client} (flush : NilFlush trace) : Trace Client :=
  calledAt flush.c flush.past

def NilFlush.ended {trace : Trace Client} (flush : NilFlush trace) : Trace Client :=
  flush.event :: flush.past

def isFlushSkipped : Event Client → Bool
  | .flushSkipped _ => true
  | _ => false

/-- The Flushes that leave nothing behind: when one enters its critical section,
with the buffer empty or not, every entry still frozen has been written again. -/
def coveredFlush (_ : Trace Client) (s : State Client) (event : Event Client) : Prop :=
  (isFrozen event || isFlushSkipped event) = true → Rewritten s.store

instance (trace : Trace Client) (s : State Client) (event : Event Client) :
    Decidable (coveredFlush trace s event) :=
  inferInstanceAs (Decidable ((isFrozen event || isFlushSkipped event) = true →
    Rewritten s.store))

theorem lossless_of_covered {trace : Trace Client} {s : State Client}
    (run : Run system coveredFlush trace s) : Run system losslessFreeze trace s := by
  apply run.refine
  intro _ s event _ _ covered _ freezes
  exact covered (by rw [freezes]; rfl)

theorem covered_of_faultFree {trace : Trace Client} {s : State Client}
    (run : Run system faultFree trace s) : Run system coveredFlush trace s := by
  apply run.refine
  intro trace s event s' before _ taken enters immutableBuf frozen
  have locked : s.thread (actor event) = .flushLocked := by
    cases taken <;> simp_all [isFrozen, isFlushSkipped, actor]
  rw [thawed_at_lock before locked] at frozen
  cases frozen

theorem remote_answer {trace : Trace Client} {s : State Client}
    (run : Run system losslessFreeze trace s) (keys : Utf8Keys trace) (get : RemoteGet trace) :
    ∃ q, Between get.began q get.past ∧
      get.answer = answerOf (latest (writes (landedAt q)) get.key) := by
  obtain ⟨c, key, answer, past, returned⟩ := get
  simp only [RemoteGet.began]
  obtain ⟨s₁, s₂, before, -, taken⟩ := run.emitted returned
  have earlier : Utf8Keys past := keys.past ((List.suffix_cons _ _).trans returned)
  have reads := reads_run before earlier
  cases taken with
  | blobAnswered c scanning answered =>
      obtain ⟨q, inside, answers⟩ := (reads.scanning c _ _ _ scanning).remote
      have called := reads.called c (by rw [scanning]; rfl)
      refine ⟨q, ⟨called.trans inside.1, inside.2⟩, ?_⟩
      rw [← answers]
      simp [scanBlobs, answered]
  | scanEnded c scanning =>
      obtain ⟨q, inside, answers⟩ := (reads.scanning c _ _ _ scanning).remote
      have called := reads.called c (by rw [scanning]; rfl)
      exact ⟨q, ⟨called.trans inside.1, inside.2⟩, answers⟩

/-- The latest landed Flush never gets older. -/
theorem landedAt_mono {trace past : Trace Client} {s : State Client}
    (run : Run system losslessFreeze trace s) (keys : Utf8Keys trace)
    (earlier : past <:+ trace) : landedAt past <:+ landedAt trace := by
  revert keys
  apply run.since (fun trace _ => Utf8Keys trace → landedAt past <:+ landedAt trace) earlier
  · intro _ _ _
    exact List.suffix_refl _
  · intro trace s event s' _ before ih _ taken keys
    have keys' : Utf8Keys trace := keys.past (List.suffix_cons event trace)
    cases taken with
    | @blobWritten c flushID bufMap writing =>
        have layers := layers_run before keys'
        obtain ⟨-, -, -, byWriter, -⟩ := layers.writing c _ _ writing
        have landed : landedAt (.blobWritten c flushID :: trace) = frozenAt trace := byWriter
        rw [landed]
        exact (ih keys').trans layers.ordered
    | _ => exact ih keys'

theorem landedAt_suffix (trace : Trace Client) : landedAt trace <:+ trace := by
  induction trace with
  | nil => exact List.suffix_refl _
  | cons event trace ih =>
      cases event with
      | blobWritten c flushID => exact (before_suffix _ trace).trans (List.suffix_cons _ trace)
      | _ => exact ih.trans (List.suffix_cons _ trace)

def landingOf : Event Client → Option Nat
  | .blobWritten _ flushID => some flushID
  | _ => none

/-- The numbers of the blobs that have landed, newest first. -/
def landings (trace : Trace Client) : List Nat := trace.filterMap landingOf

/-- Between instants where no blob lands, the latest landed Flush stays the same. -/
theorem landedAt_still {early late : Trace Client} (order : early <:+ late)
    (still : landings early = landings late) : landedAt late = landedAt early := by
  refine mark_still landingOf landedAt ?_ order still
  intro event trace unlanded
  cases event with
  | blobWritten c flushID => cases unlanded
  | _ => rfl

def Thread.pastFreeze : Thread → Bool
  | .flushWriting _ _ => true
  | .flushClearing => true
  | _ => false

/-- The freeze of a running Flush came after its call. -/
theorem called_before_freeze {admits : Trace Client → State Client → Event Client → Prop}
    {trace : Trace Client} {s : State Client} (run : Run system admits trace s) :
    ∀ c, (s.thread c).pastFreeze = true → calledAt c trace <:+ frozenAt trace := by
  apply run.invariant (fun trace s =>
    ∀ c, (s.thread c).pastFreeze = true → calledAt c trace <:+ frozenAt trace)
  · intro s start c frozen
    subst start
    cases frozen
  · intro trace s event s' before ih _ taken c frozen
    by_cases acts : c = actor event
    · subst acts
      cases taken with
      | frozen c locked free filled => exact before_suffix _ trace
      | blobWritten c writing => exact ih c (by rw [writing]; rfl)
      | _ => simp_all [actor, State.move, State.unlockMu, State.unlockFlush, Thread.pastFreeze]
    · rw [step_thread_other taken c acts] at frozen
      have called : calledAt c (event :: trace) = calledAt c trace :=
        before_miss _ _ _ (marks_of_other c event acts).2
      rw [called]
      by_cases freezes : isFrozen event = true
      · rw [frozenAt, before_hit _ _ _ freezes]
        exact before_suffix _ trace
      · rw [frozenAt, before_miss _ _ _ (by simpa using freezes)]
        exact ih c frozen

/-- What is frozen has entries. -/
theorem frozen_entries {admits : Trace Client → State Client → Event Client → Prop}
    {trace : Trace Client} {s : State Client} (run : Run system admits trace s) :
    ∀ immutableBuf ∈ s.store.immutableBuf, ∃ k, k ∈ immutableBuf.keys := by
  apply run.invariant (fun _ s => ∀ immutableBuf ∈ s.store.immutableBuf,
    ∃ k, k ∈ immutableBuf.keys)
  · rintro s rfl _ ⟨⟩
  · intro trace s event s' _ ih _ taken
    cases taken with
    | frozen c locked free filled =>
        rintro _ ⟨⟩
        obtain ⟨k, member⟩ := exists_mem_keys s.store.buffer filled
        refine ⟨k, ?_⟩
        rw [← AList.mem_keys, ← AList.lookup_isSome] at member ⊢
        rw [lookup_rebuild, lookup_rebuild]
        simpa using member
    | flushReturned c clearing free => rintro _ ⟨⟩
    | _ => exact ih

/-- A Flush that returns nil, and that found nothing left behind, leaves the writes of
an instant of its call landed: of its freeze, or of its look at the empty buffer. -/
theorem nil_flush_lands {trace : Trace Client} {s : State Client}
    (run : Run system coveredFlush trace s) (keys : Utf8Keys trace) (flush : NilFlush trace) :
    ∃ p, Between flush.began p flush.past ∧ writes (landedAt flush.past) = writes p := by
  obtain ⟨c, event, past, returnsNil, returned⟩ := flush
  simp only [NilFlush.began]
  obtain ⟨s₁, s₂, before, covered, taken⟩ := run.emitted returned
  have earlier : Utf8Keys past := keys.past ((List.suffix_cons _ _).trans returned)
  have layers := layers_run (lossless_of_covered before) earlier
  rcases returnsNil with rfl | rfl
  · cases taken with
    | flushSkipped c locked free empty =>
        have thawed : s₁.store.immutableBuf = none := by
          by_contra frozen
          obtain ⟨immutableBuf, held⟩ := Option.ne_none_iff_exists'.mp frozen
          obtain ⟨k, member⟩ := frozen_entries before immutableBuf held
          have rewritten : Rewritten s₁.store := covered rfl
          exact not_mem_keys_of_isEmpty _ empty k (rewritten immutableBuf held k member)
        refine ⟨past, between_now (before_suffix _ past), ?_⟩
        rw [layers.settled thawed, layers.drained empty]
  · cases taken with
    | flushReturned c clearing free =>
        have froze := called_before_freeze before c (by rw [clearing]; rfl)
        exact ⟨frozenAt past, ⟨froze, before_suffix _ past⟩, by rw [layers.clearing c clearing]⟩

/-- Without failing writes a Flush that returns nil leaves every write from before
its call in a landed segment, its own or that of a Flush it waited for. -/
theorem nil_flush_covers {trace : Trace Client} {s : State Client}
    (run : Run system faultFree trace s) (keys : Utf8Keys trace) (flush : NilFlush trace) :
    writes flush.began <:+ writes (landedAt flush.past) := by
  obtain ⟨p, during, same⟩ := nil_flush_lands (covered_of_faultFree run) keys flush
  rw [same]
  exact writes_suffix during.1

/-- Durable reads are a consistent, growing prefix of the writes. To every Remote
Get belongs an instant `pick get` of it such that it answers for the writes before
the freeze of the latest Flush that had landed at that instant; this freeze never
moves back from one Get to a later one; and a Flush that returned nil is followed
by landed freezes that cover every write from before its call. -/
theorem durable_reads_prefix_grows {trace : Trace Client} {s : State Client}
    (run : Run system faultFree trace s) (keys : Utf8Keys trace) :
    (∃ pick : RemoteGet trace → Trace Client,
      (∀ get, Between get.began (pick get) get.past ∧
        get.answer = answerOf (latest (writes (landedAt (pick get))) get.key)) ∧
      ∀ get later : RemoteGet trace, get.ended <:+ later.began →
        landedAt (pick get) <:+ landedAt (pick later)) ∧
      ∀ flush : NilFlush trace, writes flush.began <:+ writes (landedAt flush.past) := by
  have lossless := lossless_of_faultFree run
  refine ⟨?_, nil_flush_covers run keys⟩
  choose pick inside answers using remote_answer lossless keys
  refine ⟨pick, fun get => ⟨inside get, answers get⟩, ?_⟩
  intro get later order
  have upto : pick later <:+ trace :=
    (inside later).2.trans ((List.suffix_cons _ _).trans later.returned)
  have earlier : pick get <:+ pick later :=
    (((inside get).2.trans (List.suffix_cons _ _)).trans order).trans (inside later).1
  obtain ⟨s₁, run₁⟩ := lossless.past upto
  exact landedAt_mono run₁ (keys.past upto) earlier

/-- A Remote Get that tries the blob of a halted second Flush and goes on to the
first. -/
def haltedTrace : Trace Bool :=
  [.getReturned false [107] .DurabilityRemote (.ok [1]), .blobPassed false, .getMissed false,
    .getLocked false, .getCalled false [107] .DurabilityRemote, .frozen true, .flushLocked true,
    .flushCalled true, .put false [107] [2], .flushReturned true, .blobWritten true 1,
    .frozen true, .flushLocked true, .flushCalled true, .put false [107] [1]]

theorem durable_reads_prefix_grows_halted :
    (∃ s, Run system faultFree haltedTrace s) ∧
      ∃ get : RemoteGet haltedTrace, get.answer = .ok [1] ∧
        ∃ q, Between get.began q get.past ∧
          (.ok [1] : Except GetError Bytes) = answerOf (latest (writes (landedAt q)) [107]) := by
  have start : Run system faultFree [] (initial : State Bool) := .start rfl
  have flushed := (((((start.step (.put false [107] [1] rfl rfl) rfl).step
    (.flushCalled true rfl) rfl).step
    (.flushLocked true rfl rfl) rfl).step
    (.frozen true rfl rfl rfl) rfl).step
    (.blobWritten true rfl) rfl).step
    (.flushReturned true rfl rfl) rfl
  have halted := (((flushed.step (.put false [107] [2] rfl rfl) rfl).step
    (.flushCalled true rfl) rfl).step
    (.flushLocked true rfl rfl) rfl).step
    (.frozen true rfl rfl rfl) rfl
  have run : ∃ s, Run system faultFree haltedTrace s := ⟨_, ((((halted.step
    (.getCalled false [107] none rfl) rfl).step
    (.getLocked false rfl rfl) rfl).step
    (.getMissed false rfl (fun memory => by cases memory)) rfl).step
    (.blobPassed false rfl rfl) rfl).step
    (.blobAnswered false rfl rfl) rfl⟩
  refine ⟨run, ⟨false, [107], .ok [1], haltedTrace.tail, List.suffix_refl _⟩, rfl, ?_⟩
  obtain ⟨s, run⟩ := run
  obtain ⟨⟨pick, right, -⟩, -⟩ := durable_reads_prefix_grows run (by decide)
  exact ⟨_, right _⟩

/-- A Flush that returned nil is durable, also after failed Flushes, as long as no
Flush leaves a frozen entry behind. A Remote Get that begins afterwards answers for the
freeze of the latest Flush that had landed at an instant of it, which covers every write
from before that Flush was called. When no other blob has landed since, that is an
instant of the Flush itself, whatever was written or has failed since it returned; and
it is the call of the Flush when nothing was written up to its return, or nothing at all
since. -/
theorem remote_get_after_nil_flush {trace : Trace Client} {s : State Client}
    (run : Run system coveredFlush trace s) (keys : Utf8Keys trace) (flush : NilFlush trace)
    (get : RemoteGet trace) (after : flush.ended <:+ get.began) :
    (∃ q, Between get.began q get.past ∧
        get.answer = answerOf (latest (writes (landedAt q)) get.key) ∧
        writes flush.began <:+ writes (landedAt q)) ∧
      (landings flush.past = landings get.past →
        (∃ p, Between flush.began p flush.past ∧
          get.answer = answerOf (latest (writes p) get.key)) ∧
        (writes flush.began = writes flush.past →
          get.answer = answerOf (latest (writes flush.began) get.key))) ∧
      (writes flush.began = writes get.past →
        get.answer = answerOf (latest (writes flush.began) get.key)) := by
  obtain ⟨q, inside, answers⟩ := remote_answer (lossless_of_covered run) keys get
  obtain ⟨p, during, same⟩ := nil_flush_lands run keys flush
  have upto : q <:+ trace := inside.2.trans ((List.suffix_cons _ _).trans get.returned)
  obtain ⟨s₁, run₁⟩ := run.past upto
  have order : flush.past <:+ q := (List.suffix_cons _ _).trans (after.trans inside.1)
  have grown : landedAt flush.past <:+ landedAt q :=
    landedAt_mono (lossless_of_covered run₁) (keys.past upto) order
  have covers : writes flush.began <:+ writes (landedAt q) := by
    have called : writes flush.began <:+ writes p := writes_suffix during.1
    rw [← same] at called
    exact called.trans (writes_suffix grown)
  refine ⟨⟨q, inside, answers, covers⟩, ?_, ?_⟩
  · intro none
    have unlanded : landings q = landings get.past :=
      Between.observed ⟨order, inside.2⟩ landingOf none
    have answered : get.answer = answerOf (latest (writes p) get.key) := by
      rw [answers, landedAt_still order (none.trans unlanded.symm), same]
    refine ⟨⟨p, during, answered⟩, ?_⟩
    intro idle
    rw [answered, writes_between during idle, ← idle]
  · intro idle
    have within : writes (landedAt q) <:+ writes get.past :=
      writes_suffix ((landedAt_suffix q).trans inside.2)
    rw [answers, suffix_squeeze covers within idle, ← idle]

/-- A failed Flush whose key is written again, a Flush, a Put that is not flushed, and a
Remote Get. -/
def coveredTrace : Trace Unit :=
  [.getReturned () [107] .DurabilityRemote (.ok [2]), .getMissed (), .getLocked (),
    .getCalled () [107] .DurabilityRemote, .put () [107] [3], .flushReturned (),
    .blobWritten () 2, .frozen (), .flushLocked (), .flushCalled (), .put () [107] [2],
    .writeFailed () 1, .frozen (), .flushLocked (), .flushCalled (), .put () [107] [1]]

theorem remote_get_after_nil_flush_covered :
    (∃ s, Run system coveredFlush coveredTrace s) ∧
      ∃ (flush : NilFlush coveredTrace) (get : RemoteGet coveredTrace),
        flush.ended <:+ get.began ∧ get.answer = .ok [2] ∧
          (.ok [2] : Except GetError Bytes) =
            answerOf (latest (writes flush.began) [107]) := by
  have start : Run system coveredFlush [] (initial : State Unit) := .start rfl
  have failed := ((((start.step (.put () [107] [1] rfl rfl) (by decide)).step
    (.flushCalled () rfl) (by decide)).step
    (.flushLocked () rfl rfl) (by decide)).step
    (.frozen () rfl rfl rfl) (by decide)).step
    (.writeFailed () rfl) (by decide)
  have flushed := (((((failed.step (.put () [107] [2] rfl rfl) (by decide)).step
    (.flushCalled () rfl) (by decide)).step
    (.flushLocked () rfl rfl) (by decide)).step
    (.frozen () rfl rfl rfl) (by decide)).step
    (.blobWritten () rfl) (by decide)).step
    (.flushReturned () rfl rfl) (by decide)
  have run : ∃ s, Run system coveredFlush coveredTrace s := ⟨_, ((((flushed.step
    (.put () [107] [3] rfl rfl) (by decide)).step
    (.getCalled () [107] none rfl) (by decide)).step
    (.getLocked () rfl rfl) (by decide)).step
    (.getMissed () rfl (fun memory => by cases memory)) (by decide)).step
    (.blobAnswered () rfl rfl) (by decide)⟩
  let flush : NilFlush coveredTrace :=
    ⟨(), .flushReturned (), coveredTrace.drop 6, Or.inr rfl, List.drop_suffix 5 coveredTrace⟩
  let get : RemoteGet coveredTrace :=
    ⟨(), [107], .ok [2], coveredTrace.tail, List.suffix_refl _⟩
  have after : flush.ended <:+ get.began := List.suffix_cons _ _
  refine ⟨run, flush, get, after, rfl, ?_⟩
  obtain ⟨s, run⟩ := run
  exact ((remote_get_after_nil_flush run (by decide) flush get after).2.1 rfl).2 rfl

/-- Put, failed Flush, a Flush that finds the buffer empty, and a Remote Get. -/
def skippedTrace : Trace Unit :=
  [.getReturned () [107] .DurabilityRemote (.error .KEY_NOT_FOUND), .blobPassed (),
    .getMissed (), .getLocked (), .getCalled () [107] .DurabilityRemote, .flushSkipped (),
    .flushLocked (), .flushCalled (), .writeFailed () 1, .frozen (), .flushLocked (),
    .flushCalled (), .put () [107] [1]]

/-- The Flush after a failed one returns nil on the empty buffer, although the
frozen Put is in no segment. -/
theorem nil_flush_misses_frozen_put :
    (∃ s, Run system anyStep skippedTrace s) ∧ Utf8Keys skippedTrace ∧
      ∃ (flush : NilFlush skippedTrace) (get : RemoteGet skippedTrace),
        flush.ended <:+ get.began ∧ get.key = [107] ∧ get.answer = .error .KEY_NOT_FOUND ∧
          ∀ q, Between flush.began q get.past →
            get.answer ≠ answerOf (latest (writes q) get.key) := by
  have start : Run system anyStep [] (initial : State Unit) := .start rfl
  have failed := ((((start.step (.put () [107] [1] rfl rfl) trivial).step
    (.flushCalled () rfl) trivial).step
    (.flushLocked () rfl rfl) trivial).step
    (.frozen () rfl rfl rfl) trivial).step
    (.writeFailed () rfl) trivial
  have skipped := ((failed.step (.flushCalled () rfl) trivial).step
    (.flushLocked () rfl rfl) trivial).step
    (.flushSkipped () rfl rfl rfl) trivial
  have run := ((((skipped.step (.getCalled () [107] none rfl) trivial).step
    (.getLocked () rfl rfl) trivial).step
    (.getMissed () rfl (fun memory => by cases memory)) trivial).step
    (.blobPassed () rfl rfl) trivial).step
    (.scanEnded () rfl) trivial
  let flush : NilFlush skippedTrace :=
    ⟨(), .flushSkipped (), skippedTrace.drop 6, Or.inl rfl, List.drop_suffix 5 skippedTrace⟩
  let get : RemoteGet skippedTrace :=
    ⟨(), [107], .error .KEY_NOT_FOUND, skippedTrace.tail, List.suffix_refl _⟩
  refine ⟨⟨_, run⟩, by decide, flush, get, List.suffix_refl _, rfl, rfl, ?_⟩
  intro q inside
  rw [writes_between inside rfl]
  decide

end FizzbeeMbt.GoStore
