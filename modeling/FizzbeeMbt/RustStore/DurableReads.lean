import FizzbeeMbt.RustStore.DirtyReads

/-! Gets with `DurabilityLevel::Remote`: which prefix of the writes they see, and
what a flush that returned Ok has made durable. -/

namespace FizzbeeMbt.RustStore

open FizzbeeMbt.Maps FizzbeeMbt.Deltas FizzbeeMbt.Runs

variable {Client Path : Type} [DecidableEq Client] [LinearOrder Path]

/-- A flush call that returned Ok within the run. -/
structure OkFlush (trace : Trace Client Path) where
  c : Client
  past : Trace Client Path
  returned : .flushReturned c :: past <:+ trace

def OkFlush.began {trace : Trace Client Path} (flush : OkFlush trace) : Trace Client Path :=
  calledAt flush.c flush.past

def OkFlush.ended {trace : Trace Client Path} (flush : OkFlush trace) : Trace Client Path :=
  .flushReturned flush.c :: flush.past

theorem remote_answer {trace : Trace Client Path} {s : State Client Path}
    (run : Run system losslessStop trace s) (get : GetCall .Remote trace) :
    Between get.began get.listed get.past ∧
      get.answer = .ok (latest (writes (durableAt get.listed)) get.key).join := by
  obtain ⟨c, key, answer, past, returned⟩ := get
  obtain ⟨s₁, s₂, before, -, taken⟩ := run.emitted returned
  have reads := reads_run before
  have listed : listedAt c past <:+ past := before_suffix _ past
  cases taken with
  | segmentAnswered c reading answered =>
      have atSegment := reads c _ _ _ reading
      exact ⟨⟨atSegment.called, listed⟩, reading_answer atSegment answered⟩
  | scanEnded c reading =>
      have atEnd := reads c _ _ _ reading
      exact ⟨⟨atEnd.called, listed⟩, ended_answer atEnd⟩

/-- The durable mark never moves back. -/
theorem durableAt_mono {trace past : Trace Client Path} {s : State Client Path}
    (run : Run system losslessStop trace s) (earlier : past <:+ trace) :
    durableAt past <:+ durableAt trace := by
  apply run.since (fun trace _ => durableAt past <:+ durableAt trace) earlier
  · intro _ _
    exact List.suffix_refl _
  · intro trace s event s' _ before ih _ taken
    cases taken with
    | landed c putting => exact ih.trans (layers_run before).ordered
    | _ => exact ih

def landingOf : Event Client Path → Option Path
  | .landed _ filename => some filename
  | _ => none

/-- The names of the segments that have landed, newest first. -/
def landings (trace : Trace Client Path) : List Path := trace.filterMap landingOf

omit [DecidableEq Client] [LinearOrder Path] in
/-- Between instants where no segment lands, the durable mark stays the same. -/
theorem durableAt_still {early late : Trace Client Path} (order : early <:+ late)
    (still : landings early = landings late) : durableAt late = durableAt early := by
  refine mark_still landingOf durableAt ?_ order still
  intro event trace unlanded
  cases event with
  | landed c filename => cases unlanded
  | _ => rfl

section Faultless

/-- Without faults only a running flush has frozen entries, and they are the ones
that it froze itself. -/
structure Owned (trace : Trace Client Path) (s : State Client Path) : Prop where
  frozen : s.store.immutable_buf.isEmpty = true ∨
    ∃ c, s.thread c = .flushTaking ∧ before (isFrozenBy c) trace = pendingAt trace
  putting : ∀ c filename content, s.thread c = .flushPutting filename content →
    before (isFrozenBy c) trace = pendingAt trace

def isFrozen : Event Client Path → Bool
  | .frozen _ => true
  | _ => false

omit [DecidableEq Client] [LinearOrder Path] in
/-- Only a freeze, or a loss, moves the pending mark. -/
theorem pending_step (event : Event Client Path) (trace : Trace Client Path)
    (kept : isPutLost event = false) (unfrozen : isFrozen event = false) :
    pendingAt (event :: trace) = pendingAt trace := by
  cases event with
  | frozen c => cases unfrozen
  | putFailed c => cases kept
  | putDropped c => cases kept
  | _ => rfl

/-- While another client is past the gate, nobody freezes and nothing is lost. -/
theorem beside_flush {s s' : State Client Path} {event : Event Client Path} (gate : Gate s)
    (taken : Step s event s') (c : Client) (holds : (s.thread c).holdsGate = true)
    (differ : c ≠ actor event) : isFrozen event = false ∧ isPutLost event = false := by
  have unheld : (s.thread (actor event)).holdsGate = false := by
    by_contra second
    exact differ (gate.sole (actor event) c (by simpa using second) holds)
  cases taken <;>
    first
      | exact ⟨rfl, rfl⟩
      | simp_all [actor, Thread.holdsGate]

omit [LinearOrder Path] in
theorem frozenBy_step (c : Client) (event : Event Client Path) (trace : Trace Client Path)
    (unfrozen : isFrozen event = false) :
    before (isFrozenBy c) (event :: trace) = before (isFrozenBy c) trace := by
  apply before_miss
  cases event <;> first | rfl | cases unfrozen

/-- What was frozen stays with the flush that froze it, until it is taken. -/
theorem owned_beside {trace : Trace Client Path} {s s' : State Client Path}
    {event : Event Client Path} (owned : Owned trace s) (taken : Step s event s')
    (kept : isPutLost event = false) (unfrozen : isFrozen event = false)
    (untaken : isTaken event = false)
    (frozen : s'.store.immutable_buf.isEmpty = true ∨
      (s'.store.immutable_buf = s.store.immutable_buf ∧
        ∀ c, s.thread c = .flushTaking → s'.thread c = .flushTaking)) :
    Owned (event :: trace) s' := by
  have pending := pending_step event trace kept unfrozen
  constructor
  · rcases frozen with empty | ⟨same, still⟩
    · exact Or.inl empty
    · rw [same]
      rcases owned.frozen with empty | ⟨c, taking, mark⟩
      · exact Or.inl empty
      · refine Or.inr ⟨c, still c taking, ?_⟩
        rw [frozenBy_step c event trace unfrozen, pending, mark]
  · intro c filename content at'
    rw [frozenBy_step c event trace unfrozen, pending]
    exact owned.putting c filename content (putting_step taken untaken at')

/-- A client that is to take leaves that state by taking, or by being dropped. -/
theorem taking_step {s s' : State Client Path} {event : Event Client Path}
    (taken : Step s event s') (untaken : isTaken event = false)
    (undropped : isDropped event = false) {c : Client} (taking : s.thread c = .flushTaking) :
    s'.thread c = .flushTaking ∨ event = .tookNothing c := by
  by_cases acts : c = actor event
  · subst acts
    cases taken <;> simp_all [actor, isTaken, isDropped]
  · rw [step_thread_other taken c acts]
    exact Or.inl taking

theorem owned_step {trace : Trace Client Path} {s s' : State Client Path}
    {event : Event Client Path} (owned : Owned trace s) (gate : Gate s)
    (faultless : faultFree trace s event) (taken : Step s event s') :
    Owned (event :: trace) s' := by
  obtain ⟨kept, undropped⟩ := faultless
  have beside := owned_beside owned taken kept
  have still (c : Client) (untaken : isTaken event = false) (kept : ∀ c, event ≠ .tookNothing c)
      (taking : s.thread c = .flushTaking) : s'.thread c = .flushTaking :=
    (taking_step taken untaken undropped taking).resolve_right (kept c)
  cases taken with
  | frozen c freezing did_freeze =>
      have moved : Step s (.frozen c) _ := .frozen c freezing did_freeze
      have mark : before (isFrozenBy c) (.frozen c :: trace) = trace :=
        before_hit _ _ _ (by simp [isFrozenBy])
      constructor
      · exact Or.inr ⟨c, by simp, mark⟩
      · intro other filename content at'
        have putting := putting_step moved rfl at'
        have same := gate.sole c other (by rw [freezing]; rfl) (by rw [putting]; rfl)
        rw [same, freezing] at putting
        cases putting
  | taken c filename taking took increasing =>
      obtain ⟨rfl, rfl, filled⟩ := take_moved s.store _ _ took
      have mark : before (isFrozenBy c) trace = pendingAt trace := by
        rcases owned.frozen with empty | ⟨other, taking', mark⟩
        · rw [filled] at empty
          cases empty
        · have same := gate.sole c other (by rw [taking]; rfl) (by rw [taking']; rfl)
          exact same ▸ mark
      constructor
      · exact Or.inl rfl
      · intro other name map at'
        by_cases acts : other = c
        · subst acts
          rw [frozenBy_step _ _ _ rfl]
          exact mark
        · have putting := (step_thread_other (.taken c filename taking took increasing)
            other acts).symm.trans at'
          have same := gate.sole c other (by rw [taking]; rfl) (by rw [putting]; rfl)
          exact absurd same acts
  | tookNothing c taking nothing =>
      exact beside rfl rfl (Or.inl (take_none s.store nothing))
  | flushReturned c clearing => exact beside rfl rfl (Or.inl rfl)
  | freezeSkipped c freezing not_frozen empty =>
      apply beside rfl rfl
      rw [freeze_kept s.store not_frozen]
      exact Or.inr ⟨rfl, fun c => still c rfl (by simp)⟩
  | freezeRefused c freezing not_frozen filled =>
      apply beside rfl rfl
      rw [freeze_kept s.store not_frozen]
      exact Or.inr ⟨rfl, fun c => still c rfl (by simp)⟩
  | dropped c awaiting => cases undropped
  | droppedWaiting c called => cases undropped
  | putFailed c putting => cases kept
  | putDropped c putting => cases kept
  | _ => exact beside rfl rfl (Or.inr ⟨rfl, fun c => still c rfl (by simp)⟩)

theorem owned_run {trace : Trace Client Path} {s : State Client Path}
    (run : Run system faultFree trace s) : Owned trace s := by
  apply run.invariant (fun trace s => Owned trace s)
  · intro s start
    subst start
    constructor
    · exact Or.inl rfl
    · intro c filename content at'
      cases at'
  · intro _ _ _ _ before owned faultless taken
    exact owned_step owned (gate_run before) faultless taken

theorem lossless_run {trace : Trace Client Path} {s : State Client Path}
    (run : Run system faultFree trace s) : Run system losslessStop trace s :=
  lossless_of_faultFree run fun _ _ _ faultless => faultless.1

/-- Without faults the durable mark is the freeze of the latest landed flush. -/
theorem landedAt_eq_durableAt {trace : Trace Client Path} {s : State Client Path}
    (run : Run system faultFree trace s) : landedAt trace = durableAt trace := by
  apply run.invariant (fun trace _ => landedAt trace = durableAt trace)
  · intro _ _
    rfl
  · intro trace s event s' before ih faultless taken
    cases taken with
    | landed c putting => exact (owned_run before).putting c _ _ putting
    | putFailed c putting => cases faultless.1
    | putDropped c putting => cases faultless.1
    | _ => exact ih

/-- Without faults `immutable_buf` is empty when a flush freezes. -/
theorem empty_at_freeze {trace : Trace Client Path} {s : State Client Path}
    (run : Run system faultFree trace s) {c : Client} (freezing : s.thread c = .flushFreezing) :
    s.store.immutable_buf.isEmpty = true := by
  rcases (owned_run run).frozen with empty | ⟨other, taking, -⟩
  · exact empty
  · have same := (gate_run run).sole c other (by rw [freezing]; rfl) (by rw [taking]; rfl)
    rw [same, freezing] at taking
    cases taking

end Faultless

/-- The last freeze of the flush of `c` was refused over a `buf` that held writes
from before the flush was called. -/
def leftBehind (c : Client) : Trace Client Path → Bool
  | [] => false
  | .flushCalled c' :: trace => c' ≠ c && leftBehind c trace
  | .freezeRefused c' :: trace =>
      if c' = c then !(recent (writes (pendingAt trace)) (writes (calledAt c trace))).isEmpty
      else leftBehind c trace
  | _ :: trace => leftBehind c trace

/-- Past its freeze, a flush has every write from before its call on the way, unless
that freeze was refused over some of them. -/
def Covers (trace : Trace Client Path) (s : State Client Path) : Prop :=
  ∀ c, (s.thread c).holdsGate = true → s.thread c ≠ .flushFreezing →
    leftBehind c trace = false → writes (calledAt c trace) <:+ writes (pendingAt trace)

omit [LinearOrder Path] in
theorem leftBehind_beside (c : Client) (event : Event Client Path) (trace : Trace Client Path)
    (differ : c ≠ actor event) : leftBehind c (event :: trace) = leftBehind c trace := by
  cases event <;> simp_all [leftBehind, actor, eq_comm]

theorem covers_step {trace : Trace Client Path} {s s' : State Client Path}
    {event : Event Client Path} (layers : Layers trace s) (gate : Gate s)
    (covers : Covers trace s) (taken : Step s event s') : Covers (event :: trace) s' := by
  intro c holds frozen covered
  by_cases acts : c = actor event
  · subst acts
    cases taken with
    | frozen c freezing did_freeze =>
        exact writes_suffix (before_suffix _ trace)
    | freezeSkipped c freezing not_frozen empty =>
        have drained : writes (pendingAt trace) = writes trace := layers.drained empty
        have called : writes (calledAt c trace) <:+ writes trace :=
          writes_suffix (before_suffix _ trace)
        exact drained ▸ called
    | freezeRefused c freezing not_frozen filled =>
        have nothing : recent (writes (pendingAt trace)) (writes (calledAt c trace)) = [] := by
          simpa [leftBehind, actor] using covered
        have called : calledAt c trace <:+ trace := before_suffix _ trace
        rcases List.suffix_or_suffix_of_suffix called layers.past with early | late
        · exact writes_suffix early
        · have same := eq_of_recent_nil (writes_suffix late) nothing
          exact same ▸ List.suffix_refl _
    | tookNothing c taking nothing =>
        exact covers c (by rw [taking]; rfl) (by simp [taking]) covered
    | taken c filename taking took increasing =>
        exact covers c (by rw [taking]; rfl) (by simp [taking]) covered
    | landed c putting =>
        exact covers c (by rw [putting]; rfl) (by simp [putting]) covered
    | gateTaken c called free => simp [actor] at frozen
    | getCalled c key level idle =>
        cases level <;> simp_all [actor, getStart, Thread.holdsGate]
    | _ => simp_all [actor, State.move, State.openGate, Thread.holdsGate]
  · have same := step_thread_other taken c acts
    rw [same] at holds frozen
    obtain ⟨unfrozen, kept⟩ := beside_flush gate taken c holds acts
    rw [leftBehind_beside c event trace acts] at covered
    rw [calledAt, before_miss _ _ _ (marks_of_other c event acts).1,
      pending_step event trace kept unfrozen]
    exact covers c holds frozen covered

theorem covers_run {trace : Trace Client Path} {s : State Client Path}
    (run : Run system losslessStop trace s) : Covers trace s := by
  apply run.invariant (fun trace s => Covers trace s)
  · intro s start c holds
    subst start
    cases holds
  · intro _ _ _ _ before covers _ taken
    exact covers_step (layers_run before) (gate_run before) covers taken

/-- A flush that returns Ok with nothing left behind leaves every write from before
its call in a landed segment. -/
theorem flush_covers {past : Trace Client Path} {s s' : State Client Path} {c : Client}
    (run : Run system losslessStop past s) (taken : Step s (.flushReturned c) s')
    (covered : leftBehind c past = false) :
    writes (calledAt c past) <:+ writes (durableAt past) := by
  have layers := layers_run run
  cases taken with
  | flushReturned c clearing =>
      have holds : (s.thread c).holdsGate = true := by rw [clearing]; rfl
      have grounded : s.inFlight.isEmpty = true :=
        inFlight_not_putting (gate_run run) holds (by rw [clearing]; rfl)
      rw [layers.settled (layers.clearing c clearing) grounded]
      exact covers_run run c holds (by simp [clearing]) covered

/-- Without faults no freeze is ever refused. -/
theorem nothing_left_behind {trace : Trace Client Path} {s : State Client Path}
    (run : Run system faultFree trace s) (c : Client) : leftBehind c trace = false := by
  apply run.invariant (fun trace _ => leftBehind c trace = false)
  · intro _ _
    rfl
  · intro trace s event s' before ih _ taken
    cases taken with
    | freezeRefused c' freezing not_frozen filled =>
        have did : s.store.freeze_internal.1 = true := by
          simp [EmbeddedKvStore.freeze_internal, filled, empty_at_freeze before freezing]
        rw [did] at not_frozen
        cases not_frozen
    | flushCalled c' idle => simp [leftBehind, ih]
    | _ => exact ih

/-- Durable reads are a consistent, growing prefix of the writes. Every Remote get
answers for the writes before the freeze of the latest flush that had landed when it
listed, that freeze never moves back from one get to a later one, and a flush that
returned Ok is followed by landed freezes that cover every write from before its
call. -/
theorem remote_gets_prefix_grows {trace : Trace Client Path} {s : State Client Path}
    (run : Run system faultFree trace s) :
    (∀ get : GetCall .Remote trace, Between get.began get.listed get.past ∧
        get.answer = .ok (latest (writes (landedAt get.listed)) get.key).join) ∧
      (∀ get later : GetCall .Remote trace, get.ended <:+ later.began →
        landedAt get.listed <:+ landedAt later.listed) ∧
      ∀ flush : OkFlush trace, writes flush.began <:+ writes (landedAt flush.past) := by
  have lossless := lossless_run run
  have upto {level : DurabilityLevel} (get : GetCall level trace) : get.past <:+ trace :=
    (List.suffix_cons _ _).trans get.returned
  refine ⟨?_, ?_, ?_⟩
  · intro get
    obtain ⟨inside, answer⟩ := remote_answer lossless get
    obtain ⟨s₁, atListing⟩ := run.past (inside.2.trans (upto get))
    rw [landedAt_eq_durableAt atListing]
    exact ⟨inside, answer⟩
  · intro get later order
    obtain ⟨⟨-, listed⟩, -⟩ := remote_answer lossless get
    obtain ⟨⟨began, listed'⟩, -⟩ := remote_answer lossless later
    have earlier : get.listed <:+ later.listed :=
      ((listed.trans (List.suffix_cons _ _)).trans order).trans began
    obtain ⟨s₁, atListing⟩ := run.past (listed.trans (upto get))
    obtain ⟨s₂, atLater⟩ := run.past (listed'.trans (upto later))
    rw [landedAt_eq_durableAt atListing, landedAt_eq_durableAt atLater]
    exact durableAt_mono (lossless_run atLater) earlier
  · intro flush
    obtain ⟨s₁, s₂, before, -, taken⟩ := run.emitted flush.returned
    rw [landedAt_eq_durableAt before]
    exact flush_covers (lossless_run before) taken (nothing_left_behind before flush.c)

/-- A Remote get whose listing precedes the landing of a second segment, which it
does not see. -/
def midReadTrace : Trace Bool Nat :=
  [.getReturned true "k" .Remote (.ok (some [1])), .flushReturned false, .landed false 2,
    .taken false, .frozen false, .listed true, .getCalled true "k" .Remote, .gateTaken false,
    .flushCalled false, .put false "k" [2], .flushReturned false, .landed false 1,
    .taken false, .frozen false, .gateTaken false, .flushCalled false, .put false "k" [1]]

theorem remote_gets_prefix_grows_midRead :
    (∃ s, Run system faultFree midReadTrace s) ∧
      ∃ get : GetCall .Remote midReadTrace, get.answer = .ok (some [1]) ∧
        (.ok (some [1]) : Except IoError Value) =
          .ok (latest (writes (landedAt get.listed)) get.key).join := by
  have start : Run system faultFree [] (initial : State Bool Nat) := .start rfl
  have landed := ((((((start.step (.put false "k" [1] rfl) (by decide)).step
    (.flushCalled false rfl) (by decide)).step
    (.gateTaken false rfl rfl) (by decide)).step
    (.frozen false rfl rfl) (by decide)).step
    (.taken false 1 rfl rfl (by decide)) (by decide)).step
    (.landed false rfl) (by decide)).step
    (.flushReturned false rfl) (by decide)
  have listed := ((((landed.step (.put false "k" [2] rfl) (by decide)).step
    (.flushCalled false rfl) (by decide)).step
    (.gateTaken false rfl rfl) (by decide)).step
    (.getCalled true "k" .Remote rfl) (by decide)).step
    (.listed true [1] rfl ⟨List.Perm.refl _, by simp⟩) (by decide)
  have run : ∃ s, Run system faultFree midReadTrace s := ⟨_, ((((listed.step
    (.frozen false rfl rfl) (by decide)).step
    (.taken false 2 rfl rfl (by decide)) (by decide)).step
    (.landed false rfl) (by decide)).step
    (.flushReturned false rfl) (by decide)).step
    (.segmentAnswered true rfl rfl) (by decide)⟩
  let get : GetCall .Remote midReadTrace :=
    ⟨true, "k", .ok (some [1]), midReadTrace.tail, List.suffix_refl _⟩
  refine ⟨run, get, rfl, ?_⟩
  obtain ⟨s, run⟩ := run
  exact ((remote_gets_prefix_grows run).1 get).2

section AfterFaults

/-- A flush returns Ok although it left writes from before its call in `buf`. -/
def leavesBehind (trace : Trace Client Path) (event : Event Client Path) : Bool :=
  match event with
  | .flushReturned c => leftBehind c trace
  | _ => false

/-- Stops lose nothing, and no flush that returns Ok leaves anything behind. -/
def coveredFlush (trace : Trace Client Path) (s : State Client Path)
    (event : Event Client Path) : Prop :=
  losslessStop trace s event ∧ leavesBehind trace event = false

instance (trace : Trace Client Path) (s : State Client Path) (event : Event Client Path) :
    Decidable (coveredFlush trace s event) :=
  inferInstanceAs (Decidable (losslessStop trace s event ∧ leavesBehind trace event = false))

theorem lossless_of_covered {trace : Trace Client Path} {s : State Client Path}
    (run : Run system coveredFlush trace s) : Run system losslessStop trace s :=
  run.refine fun _ _ _ _ _ covered _ => covered.1

omit [DecidableEq Client] [LinearOrder Path] in
/-- An instant whose writes contain those of `began` counts as one from `began` on. -/
theorem instant_since {began p late : Trace Client Path} (past : began <:+ late)
    (order : p <:+ late) (covers : writes began <:+ writes p) :
    ∃ q, Between began q late ∧ writes q = writes p := by
  rcases List.suffix_or_suffix_of_suffix past order with early | earlier
  · exact ⟨p, ⟨early, order⟩, rfl⟩
  · refine ⟨began, ⟨List.suffix_refl _, past⟩, ?_⟩
    exact covers.eq_of_length_le (writes_suffix earlier).length_le

/-- A flush that returned Ok is durable, also after failed and dropped flushes, as
long as what those dropped had been written again and no Ok leaves writes behind in
`buf`. A Remote get that begins afterwards answers up to the durable mark of its listing,
which covers every write from before that flush was called. When no other segment has
landed since, that is an instant of the flush itself, whatever was written, has failed or
was dropped since it returned; and it is the call of the flush when nothing was written
up to its return, or nothing at all since. -/
theorem remote_get_after_ok_flush {trace : Trace Client Path} {s : State Client Path}
    (run : Run system coveredFlush trace s) (flush : OkFlush trace)
    (get : GetCall .Remote trace) (after : flush.ended <:+ get.began) :
    (Between get.began get.listed get.past ∧
        get.answer = .ok (latest (writes (durableAt get.listed)) get.key).join ∧
        writes flush.began <:+ writes (durableAt get.listed)) ∧
      (landings flush.past = landings get.listed →
        (∃ p, Between flush.began p flush.past ∧
          get.answer = .ok (latest (writes p) get.key).join) ∧
        (writes flush.began = writes flush.past →
          get.answer = .ok (latest (writes flush.began) get.key).join)) ∧
      (writes flush.began = writes get.past →
        get.answer = .ok (latest (writes flush.began) get.key).join) := by
  obtain ⟨inside, answer⟩ := remote_answer (lossless_of_covered run) get
  obtain ⟨s₁, s₂, before, covered, taken⟩ := run.emitted flush.returned
  have returned := flush_covers (lossless_of_covered before) taken covered.2
  have upto : get.listed <:+ trace :=
    inside.2.trans ((List.suffix_cons _ _).trans get.returned)
  obtain ⟨s₃, atListing⟩ := (lossless_of_covered run).past upto
  have order : flush.past <:+ get.listed :=
    (List.suffix_cons _ _).trans (after.trans inside.1)
  have covers : writes flush.began <:+ writes (durableAt get.listed) :=
    returned.trans (writes_suffix (durableAt_mono atListing order))
  refine ⟨⟨inside, answer, covers⟩, ?_, ?_⟩
  · intro none
    have layers := layers_run (lossless_of_covered before)
    obtain ⟨p, during, same⟩ := instant_since (before_suffix _ flush.past)
      (layers.ordered.trans layers.past) returned
    have answered : get.answer = .ok (latest (writes p) get.key).join := by
      rw [answer, durableAt_still order none, same]
    refine ⟨⟨p, during, answered⟩, ?_⟩
    intro idle
    rw [answered, writes_between during idle, ← idle]
  · intro idle
    have layers := layers_run atListing
    have within : writes (durableAt get.listed) <:+ writes get.past :=
      writes_suffix ((layers.ordered.trans layers.past).trans inside.2)
    rw [answer, suffix_squeeze covers within idle, ← idle]

/-- A flush dropped after its freeze, a flush that picks up what it left, a put that is
not flushed, and a Remote get. -/
def pickedUpTrace : Trace Bool Nat :=
  [.getReturned true "k" .Remote (.ok (some [1])), .listed true, .getCalled true "k" .Remote,
    .put false "k" [2], .flushReturned false, .landed false 1, .taken false,
    .freezeSkipped false, .gateTaken false, .flushCalled false, .dropped false, .frozen false,
    .gateTaken false, .flushCalled false, .put false "k" [1]]

theorem remote_get_after_ok_flush_pickedUp :
    (∃ s, Run system coveredFlush pickedUpTrace s) ∧
      ∃ (flush : OkFlush pickedUpTrace) (get : GetCall .Remote pickedUpTrace),
        flush.ended <:+ get.began ∧ get.answer = .ok (some [1]) ∧
          (.ok (some [1]) : Except IoError Value) =
            .ok (latest (writes flush.began) get.key).join := by
  have start : Run system coveredFlush [] (initial : State Bool Nat) := .start rfl
  have dropped := ((((start.step (.put false "k" [1] rfl) (by decide)).step
    (.flushCalled false rfl) (by decide)).step
    (.gateTaken false rfl rfl) (by decide)).step
    (.frozen false rfl rfl) (by decide)).step
    (.dropped false (Or.inr (Or.inl rfl))) (by decide)
  have flushed := (((((dropped.step (.flushCalled false rfl) (by decide)).step
    (.gateTaken false rfl rfl) (by decide)).step
    (.freezeSkipped false rfl rfl rfl) (by decide)).step
    (.taken false 1 rfl rfl (by decide)) (by decide)).step
    (.landed false rfl) (by decide)).step
    (.flushReturned false rfl) (by decide)
  have run : ∃ s, Run system coveredFlush pickedUpTrace s := ⟨_, (((flushed.step
    (.put false "k" [2] rfl) (by decide)).step
    (.getCalled true "k" .Remote rfl) (by decide)).step
    (.listed true [1] rfl ⟨List.Perm.refl _, by simp⟩) (by decide)).step
    (.segmentAnswered true rfl rfl) (by decide)⟩
  let flush : OkFlush pickedUpTrace :=
    ⟨false, pickedUpTrace.drop 5, List.drop_suffix 4 pickedUpTrace⟩
  let get : GetCall .Remote pickedUpTrace :=
    ⟨true, "k", .ok (some [1]), pickedUpTrace.tail, List.suffix_refl _⟩
  have after : flush.ended <:+ get.began := List.suffix_cons _ _
  refine ⟨run, flush, get, after, rfl, ?_⟩
  obtain ⟨s, run⟩ := run
  exact ((remote_get_after_ok_flush run flush get after).2.1 rfl).2 rfl

/-- Put, a flush dropped after its freeze, a second put, a flush whose freeze is
refused, and a Remote get. -/
def refusedTrace : Trace Bool Nat :=
  [.getReturned true "k" .Remote (.ok (some [1])), .listed true, .getCalled true "k" .Remote,
    .flushReturned false, .landed false 1, .taken false, .freezeRefused false,
    .gateTaken false, .flushCalled false, .put false "k" [2], .dropped false, .frozen false,
    .gateTaken false, .flushCalled false, .put false "k" [1]]

/-- The flush after a dropped one returns Ok although its freeze was refused and the
second put is in no segment. -/
theorem ok_flush_misses_refused_put :
    (∃ s, Run system anyStep refusedTrace s) ∧
      ∃ (flush : OkFlush refusedTrace) (get : GetCall .Remote refusedTrace),
        flush.ended <:+ get.began ∧ get.key = "k" ∧ get.answer = .ok (some [1]) ∧
          ∀ q, Between flush.began q get.past →
            get.answer ≠ .ok (latest (writes q) get.key).join := by
  have start : Run system anyStep [] (initial : State Bool Nat) := .start rfl
  have dropped := ((((start.step (.put false "k" [1] rfl) trivial).step
    (.flushCalled false rfl) trivial).step
    (.gateTaken false rfl rfl) trivial).step
    (.frozen false rfl rfl) trivial).step
    (.dropped false (Or.inr (Or.inl rfl))) trivial
  have flushed := ((((((dropped.step (.put false "k" [2] rfl) trivial).step
    (.flushCalled false rfl) trivial).step
    (.gateTaken false rfl rfl) trivial).step
    (.freezeRefused false rfl rfl rfl) trivial).step
    (.taken false 1 rfl rfl (by decide)) trivial).step
    (.landed false rfl) trivial).step
    (.flushReturned false rfl) trivial
  have run := ((flushed.step (.getCalled true "k" .Remote rfl) trivial).step
    (.listed true [1] rfl ⟨List.Perm.refl _, by simp⟩) trivial).step
    (.segmentAnswered true rfl rfl) trivial
  let flush : OkFlush refusedTrace :=
    ⟨false, refusedTrace.drop 4, List.drop_suffix 3 refusedTrace⟩
  let get : GetCall .Remote refusedTrace :=
    ⟨true, "k", .ok (some [1]), refusedTrace.tail, List.suffix_refl _⟩
  refine ⟨⟨_, run⟩, flush, get, List.suffix_refl _, rfl, rfl, ?_⟩
  intro q inside
  rw [writes_between inside rfl]
  decide

end AfterFaults

end FizzbeeMbt.RustStore
