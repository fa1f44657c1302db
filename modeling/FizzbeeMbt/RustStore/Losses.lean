import FizzbeeMbt.RustStore.Reads

/-! Where the writes of the Rust store are, and which of them it has lost, whatever puts
of the object store fail and whatever flushes are dropped. -/

namespace FizzbeeMbt.RustStore

open FizzbeeMbt.Maps FizzbeeMbt.Deltas FizzbeeMbt.Runs

variable {Client Path : Type}

/-- The writes that `buf` holds, those that `immutable_buf` holds, those on their way to the
object store, and those of each segment under its name. Newest first. -/
structure Ledger (Path : Type) where
  buffered : History Key RawValue
  frozen : History Key RawValue
  carried : History Key RawValue
  landed : List (Path × History Key RawValue)

def Ledger.durable (ledger : Ledger Path) : History Key RawValue :=
  (ledger.landed.map Prod.snd).flatten

def Ledger.kept (ledger : Ledger Path) : History Key RawValue :=
  ledger.buffered ++ (ledger.frozen ++ (ledger.carried ++ ledger.durable))

def Ledger.record (ledger : Ledger Path) : Event Client Path → Ledger Path
  | .put _ key value => { ledger with buffered := (key, some value) :: ledger.buffered }
  | .delete _ key => { ledger with buffered := (key, none) :: ledger.buffered }
  | .frozen _ => { ledger with buffered := [], frozen := ledger.buffered }
  | .taken _ => { ledger with frozen := [], carried := ledger.frozen }
  | .landed _ filename =>
      { ledger with carried := [], landed := (filename, ledger.carried) :: ledger.landed }
  | .putFailed _ => { ledger with carried := [] }
  | .putDropped _ => { ledger with carried := [] }
  | _ => ledger

def ledgerOf : Trace Client Path → Ledger Path
  | [] => ⟨[], [], [], []⟩
  | event :: trace => (ledgerOf trace).record event

/-- The writes that were on their way when a put failed or was dropped. -/
def lostBy : Trace Client Path → History Key RawValue
  | [] => []
  | event :: trace =>
      if isPutLost event then (ledgerOf trace).carried ++ lostBy trace else lostBy trace

variable [DecidableEq Client] [LinearOrder Path]

def objectsOf (landed : List (Path × History Key RawValue)) : ObjectStore Path :=
  landed.foldr (fun segment objects => objects.insert segment.1 (contentOf segment.2)) ∅

/-- Segments as flushes leave them: newest first, and none without a write. -/
structure Segments (landed : List (Path × History Key RawValue)) : Prop where
  descending : (landed.map Prod.fst).Pairwise (· > ·)
  filled : ∀ segment ∈ landed, segment.2 ≠ []

section Objects

theorem keys_objectsOf {landed : List (Path × History Key RawValue)}
    (descending : (landed.map Prod.fst).Pairwise (· > ·)) :
    (objectsOf landed).keys = landed.map Prod.fst := by
  induction landed with
  | nil => rfl
  | cons segment landed ih =>
      obtain ⟨newest, rest⟩ := List.pairwise_cons.mp descending
      have fresh : segment.1 ∉ (objectsOf landed).keys := by
        rw [ih rest]
        exact fun member => lt_irrefl _ (newest _ member)
      rw [List.map_cons, ← ih rest]
      exact keys_insert_fresh _ _ _ fresh

/-- The objects answer for all writes that landed. -/
theorem answers_objectsOf {landed : List (Path × History Key RawValue)}
    (descending : (landed.map Prod.fst).Pairwise (· > ·)) :
    Answers ((objectsOf landed).keys.map (segmentTable (objectsOf landed)))
      (landed.map Prod.snd).flatten := by
  induction landed with
  | nil => exact answers_nil
  | cons segment landed ih =>
      obtain ⟨newest, rest⟩ := List.pairwise_cons.mp descending
      have keys := keys_objectsOf rest
      have fresh : segment.1 ∉ (objectsOf landed).keys := by
        rw [keys]
        exact fun member => lt_irrefl _ (newest _ member)
      have older := segmentTable_insert (objectsOf landed) segment.1 (contentOf segment.2) fresh
        (objectsOf landed).keys fun _ member => member
      show Answers (((objectsOf landed).insert segment.1 (contentOf segment.2)).keys.map
        (segmentTable ((objectsOf landed).insert segment.1 (contentOf segment.2)))) _
      rw [keys_insert_fresh _ _ _ fresh, List.map_cons, older, segmentTable_self]
      apply (ih rest).push
      intro key
      simp only [List.map_cons, List.flatten_cons, latest_append, lookup_contentOf]

end Objects

/-- The store holds the maps that the writes in the ledger make. -/
structure Booked (ledger : Ledger Path) (s : State Client Path) : Prop where
  buffered : s.store.buf = contentOf ledger.buffered
  frozen : s.store.immutable_buf = contentOf ledger.frozen
  putting : ∀ c filename content, s.thread c = .flushPutting filename content →
    content = contentOf ledger.carried ∧ ledger.carried ≠ [] ∧ s.lastUlid = some filename ∧
      ∀ path ∈ ledger.landed.map Prod.fst, path < filename
  uncarried : (∀ c, (s.thread c).carried = ∅) → ledger.carried = []
  taken : ∀ c, (∃ filename content, s.thread c = .flushPutting filename content) ∨
    s.thread c = .flushClearing → ledger.frozen = []
  objects : s.objects = objectsOf ledger.landed
  segments : Segments ledger.landed
  named : ∀ path ∈ ledger.landed.map Prod.fst, ∃ last ∈ s.lastUlid, path ≤ last

section Steps

variable {ledger : Ledger Path} {s s' : State Client Path} {event : Event Client Path}

omit [DecidableEq Client] [LinearOrder Path] in
theorem record_carried (ledger : Ledger Path) (still : carries event = false) :
    (ledger.record event).carried = ledger.carried ∧
      (ledger.record event).landed = ledger.landed := by
  cases event <;> first | exact ⟨rfl, rfl⟩ | cases still

theorem step_still (taken : Step s event s') (still : carries event = false) :
    s'.objects = s.objects ∧ s'.lastUlid = s.lastUlid := by
  cases taken <;> first | exact ⟨rfl, rfl⟩ | cases still

/-- A step that moves nothing out of `immutable_buf` and into no segment. -/
theorem Booked.still (booked : Booked ledger s) (taken : Step s event s')
    (still : carries event = false)
    (buffered : s'.store.buf = contentOf (ledger.record event).buffered)
    (frozen : s'.store.immutable_buf = contentOf (ledger.record event).frozen)
    (past : ∀ c, (∃ filename content, s'.thread c = .flushPutting filename content) ∨
      s'.thread c = .flushClearing → (ledger.record event).frozen = []) :
    Booked (ledger.record event) s' := by
  obtain ⟨carried, landed⟩ := record_carried ledger still
  obtain ⟨objects, lastUlid⟩ := step_still taken still
  have untaken : isTaken event = false := by
    cases event <;> first | rfl | cases still
  constructor
  · exact buffered
  · exact frozen
  · intro c filename content at'
    rw [carried, landed, lastUlid]
    exact booked.putting c filename content (putting_step taken untaken at')
  · intro empty
    rw [carried]
    apply booked.uncarried
    intro c
    rw [← carried_step taken still c]
    exact empty c
  · exact past
  · rw [objects, landed]
    exact booked.objects
  · rw [landed]
    exact booked.segments
  · rw [landed, lastUlid]
    exact booked.named

/-- While one client is past the gate with nothing in its hands, nothing is carried. -/
theorem Booked.nothing_carried (booked : Booked ledger s) (gate : Gate s) (c : Client)
    (holds : (s.thread c).holdsGate = true) (empty : (s.thread c).carried = ∅) :
    ledger.carried = [] := by
  apply booked.uncarried
  intro other
  by_cases own : other = c
  · rw [own]
    exact empty
  · apply carried_idle
    by_contra second
    exact own (gate.sole c other holds (by simpa using second))

/-- Only the client that steps can be past the gate after a step of one that was. -/
theorem Booked.alone (gate : Gate s) (taken : Step s event s')
    (holds : (s.thread (actor event)).holdsGate = true) {c : Client}
    (past : (s'.thread c).holdsGate = true) : c = actor event := by
  by_contra other
  rw [gate.others taken holds c other] at past
  cases past

theorem booked_taken {c : Client} {filename : Path} {content : Map Key Value}
    {store : EmbeddedKvStore} (booked : Booked ledger s) (gate : Gate s)
    (taking : s.thread c = .flushTaking)
    (took : s.store.take_immutable = some (content, store))
    (increasing : ∀ last ∈ s.lastUlid, last < filename) :
    Booked (ledger.record (.taken c : Event Client Path))
      { s.move c (.flushPutting filename content) with
        store := store
        lastUlid := some filename } := by
  have step := Step.taken c filename taking took increasing
  have holds : (s.thread c).holdsGate = true := by rw [taking]; rfl
  obtain ⟨same, rfl, filled⟩ := take_moved s.store store content took
  have carried : content = contentOf ledger.frozen := same.trans booked.frozen
  have below : ∀ path ∈ ledger.landed.map Prod.fst, path < filename := by
    intro path member
    obtain ⟨last, found, bound⟩ := booked.named path member
    exact lt_of_le_of_lt bound (increasing last found)
  constructor
  · exact booked.buffered
  · rfl
  · intro c' filename' content' at'
    obtain rfl : c' = c := Booked.alone gate step holds (by rw [at']; rfl)
    obtain ⟨rfl, rfl⟩ := Thread.flushPutting.inj ((move_thread_self s c' _).symm.trans at')
    refine ⟨carried, ?_, rfl, below⟩
    intro nothing
    rw [carried, (contentOf_isEmpty ledger.frozen).mpr nothing] at filled
    cases filled
  · intro empty
    have emptied : content = ∅ := by simpa [Thread.carried] using empty c
    rw [emptied] at filled
    cases filled
  · intro c' at'
    rfl
  · exact booked.objects
  · exact booked.segments
  · intro path member
    exact ⟨filename, rfl, le_of_lt (below path member)⟩

/-- A flush that stops before its object exists loses the writes that it carries. -/
theorem booked_lost {filename : Path} {content : Map Key Value} (booked : Booked ledger s)
    (gate : Gate s) (taken : Step s event s') (lost : isPutLost event = true)
    (putting : s.thread (actor event) = .flushPutting filename content) :
    Booked { ledger with carried := [] } s' := by
  have holds : (s.thread (actor event)).holdsGate = true := by rw [putting]; rfl
  obtain ⟨store, objects, lastUlid, idle⟩ : s'.store = s.store ∧ s'.objects = s.objects ∧
      s'.lastUlid = s.lastUlid ∧ s'.thread (actor event) = .idle := by
    cases taken <;> first | exact ⟨rfl, rfl, rfl, move_thread_self s _ _⟩ | cases lost
  have outside : ∀ c, (s'.thread c).holdsGate = false := by
    intro c
    by_contra past
    obtain rfl := Booked.alone gate taken holds (by simpa using past)
    rw [idle] at past
    exact past rfl
  constructor
  · rw [store]
    exact booked.buffered
  · rw [store]
    exact booked.frozen
  · intro c filename' content' at'
    have free := outside c
    rw [at'] at free
    cases free
  · intro _
    rfl
  · intro c past
    have free := outside c
    rcases past with ⟨filename', content', at'⟩ | at' <;> rw [at'] at free <;> cases free
  · rw [objects]
    exact booked.objects
  · exact booked.segments
  · rw [lastUlid]
    exact booked.named

theorem booked_landed {c : Client} {filename : Path} {content : Map Key Value}
    (booked : Booked ledger s) (gate : Gate s)
    (putting : s.thread c = .flushPutting filename content) :
    Booked (ledger.record (.landed c filename))
      { s.move c .flushClearing with objects := s.objects.insert filename content } := by
  have step := Step.landed c putting
  have holds : (s.thread c).holdsGate = true := by rw [putting]; rfl
  obtain ⟨rfl, filled, last, below⟩ := booked.putting c filename content putting
  constructor
  · exact booked.buffered
  · exact booked.frozen
  · intro c' filename' content' at'
    obtain rfl : c' = c := Booked.alone gate step holds (by rw [at']; rfl)
    simp [State.move] at at'
  · intro _
    rfl
  · intro _ _
    exact booked.taken c (Or.inl ⟨filename, _, putting⟩)
  · rw [show (ledger.record (.landed c filename)).landed =
      (filename, ledger.carried) :: ledger.landed from rfl]
    simp only [objectsOf, List.foldr_cons]
    rw [booked.objects]
    rfl
  · constructor
    · exact List.pairwise_cons.mpr ⟨below, booked.segments.descending⟩
    · intro segment member
      rcases List.mem_cons.mp member with rfl | older
      · exact filled
      · exact booked.segments.filled segment older
  · intro path member
    rcases List.mem_cons.mp member with rfl | older
    · exact ⟨path, last, le_refl path⟩
    · exact booked.named path older

theorem booked_frozen {c : Client} (booked : Booked ledger s) (gate : Gate s)
    (freezing : s.thread c = .flushFreezing) (did_freeze : s.store.freeze_internal.1 = true) :
    Booked (ledger.record (.frozen c : Event Client Path))
      { s.move c .flushTaking with store := s.store.freeze_internal.2 } := by
  have step := Step.frozen c freezing did_freeze
  have holds : (s.thread c).holdsGate = true := by rw [freezing]; rfl
  obtain ⟨store, -, -⟩ := freeze_moved s.store did_freeze
  apply booked.still step rfl
  · rw [store]
    rfl
  · rw [store]
    exact booked.buffered
  · rintro c' (⟨filename, content, at'⟩ | at')
    · obtain rfl : c' = c := Booked.alone gate step holds (by rw [at']; rfl)
      simp [State.move] at at'
    · obtain rfl : c' = c := Booked.alone gate step holds (by rw [at']; rfl)
      simp [State.move] at at'

theorem booked_quiet (booked : Booked ledger s) (taken : Step s event s')
    (quiet : isQuiet event = true) : Booked (ledger.record event) s' := by
  have same : ledger.record event = ledger := by
    cases event <;> first | rfl | cases quiet
  have still : carries event = false := by
    cases event <;> first | rfl | cases quiet
  have untaken : isTaken event = false := by
    cases event <;> first | rfl | cases quiet
  have emptied : ∀ c, s.thread c = .flushClearing → s.store.immutable_buf.isEmpty = true := by
    intro c clearing
    rw [booked.frozen, booked.taken c (Or.inr clearing)]
    rfl
  obtain ⟨store, -, -, cleared⟩ := step_quiet taken quiet emptied
  apply booked.still taken still
  · rw [store, same]
    exact booked.buffered
  · rw [store, same]
    exact booked.frozen
  · rw [same]
    rintro c (⟨filename, content, at'⟩ | at')
    · exact booked.taken c (Or.inl ⟨filename, content, putting_step taken untaken at'⟩)
    · have empty := cleared c at'
      rw [booked.frozen] at empty
      exact (contentOf_isEmpty ledger.frozen).mp empty

theorem booked_step (booked : Booked ledger s) (gate : Gate s) (taken : Step s event s') :
    Booked (ledger.record event) s' := by
  by_cases quiet : isQuiet event = true
  · exact booked_quiet booked taken quiet
  · cases taken with
    | put c key value idle =>
        apply booked.still (.put c key value idle) rfl
        · rw [Ledger.record, contentOf_cons, ← booked.buffered]
          rfl
        · exact booked.frozen
        · exact booked.taken
    | delete c key idle =>
        apply booked.still (.delete c key idle) rfl
        · rw [Ledger.record, contentOf_cons, ← booked.buffered]
          rfl
        · exact booked.frozen
        · exact booked.taken
    | frozen c freezing did_freeze => exact booked_frozen booked gate freezing did_freeze
    | taken c filename taking took increasing =>
        exact booked_taken booked gate taking took increasing
    | landed c putting => exact booked_landed booked gate putting
    | putFailed c putting => exact booked_lost booked gate (.putFailed c putting) rfl putting
    | putDropped c putting => exact booked_lost booked gate (.putDropped c putting) rfl putting
    | _ => exact absurd rfl quiet

end Steps

theorem booked_run {admits : Trace Client Path → State Client Path → Event Client Path → Prop}
    {trace : Trace Client Path} {s : State Client Path} (run : Run system admits trace s) :
    Booked (ledgerOf trace) s := by
  apply run.invariant fun trace s => Booked (ledgerOf trace) s
  · intro s start
    obtain rfl : s = initial := start
    constructor
    · rfl
    · rfl
    · intro c filename content at'
      cases at'
    · intro _
      rfl
    · intro _ _
      rfl
    · rfl
    · exact ⟨List.Pairwise.nil, fun _ member => by cases member⟩
    · intro path member
      cases member
  · intro _ _ _ _ before booked _ taken
    exact booked_step booked (gate_run before) taken

section Kept

/-- A step moves the writes that are kept, records the one that it makes, and loses those
of a flush that stops. -/
theorem kept_step {ledger : Ledger Path} {s s' : State Client Path} {event : Event Client Path}
    (booked : Booked ledger s) (gate : Gate s) (taken : Step s event s') :
    (isPutLost event = true ∧ writeOf event = none ∧
        (ledger.record event).kept = ledger.buffered ++ (ledger.frozen ++ ledger.durable)) ∨
      (isPutLost event = false ∧
        (ledger.record event).kept = (writeOf event).toList ++ ledger.kept) := by
  cases taken with
  | frozen c freezing did_freeze =>
      obtain ⟨-, -, empty⟩ := freeze_moved s.store did_freeze
      rw [booked.frozen] at empty
      have nothing := (contentOf_isEmpty ledger.frozen).mp empty
      refine Or.inr ⟨rfl, ?_⟩
      simp [Ledger.record, Ledger.kept, Ledger.durable, writeOf, nothing]
  | taken c filename taking took increasing =>
      have nothing := booked.nothing_carried gate c (by rw [taking]; rfl) (by rw [taking]; rfl)
      refine Or.inr ⟨rfl, ?_⟩
      simp [Ledger.record, Ledger.kept, Ledger.durable, writeOf, nothing]
  | landed c putting =>
      refine Or.inr ⟨rfl, ?_⟩
      simp [Ledger.record, Ledger.kept, Ledger.durable, writeOf]
  | putFailed c putting => exact Or.inl ⟨rfl, rfl, rfl⟩
  | putDropped c putting => exact Or.inl ⟨rfl, rfl, rfl⟩
  | _ => exact Or.inr ⟨rfl, rfl⟩

omit [DecidableEq Client] [LinearOrder Path] in
theorem writes_cons (event : Event Client Path) (trace : Trace Client Path) :
    writes (event :: trace) = (writeOf event).toList ++ writes trace := by
  cases wrote : writeOf event <;> simp [writes, wrote]

theorem kept_later {ledger : Ledger Path} {past : Trace Client Path} {s s' : State Client Path}
    {event : Event Client Path} (kept : ledger.kept.Sublist (writes past))
    (booked : Booked ledger s) (gate : Gate s) (taken : Step s event s') :
    (ledger.record event).kept.Sublist (writes (event :: past)) := by
  rw [writes_cons]
  rcases kept_step booked gate taken with ⟨-, silent, fewer⟩ | ⟨-, moved⟩
  · rw [silent, fewer]
    have inner := List.sublist_append_right ledger.carried ledger.durable
    exact ((inner.append_left ledger.frozen).append_left ledger.buffered).trans kept
  · rw [moved]
    exact kept.append_left _

theorem kept_sublist {admits : Trace Client Path → State Client Path → Event Client Path → Prop}
    {trace : Trace Client Path} {s : State Client Path} (run : Run system admits trace s) :
    (ledgerOf trace).kept.Sublist (writes trace) := by
  apply run.invariant fun trace _ => (ledgerOf trace).kept.Sublist (writes trace)
  · intro _ _
    exact List.Sublist.refl _
  · intro _ _ _ _ before kept _ taken
    exact kept_later kept (booked_run before) (gate_run before) taken

theorem kept_or_lost {admits : Trace Client Path → State Client Path → Event Client Path → Prop}
    {trace : Trace Client Path} {s : State Client Path} (run : Run system admits trace s) :
    ((ledgerOf trace).kept ++ lostBy trace).Perm (writes trace) := by
  apply run.invariant fun trace _ => ((ledgerOf trace).kept ++ lostBy trace).Perm (writes trace)
  · intro _ _
    exact List.Perm.refl _
  · intro trace s event s' before kept _ taken
    rw [writes_cons, ledgerOf, lostBy]
    rcases kept_step (booked_run before) (gate_run before) taken with
      ⟨lost, silent, fewer⟩ | ⟨landing, moved⟩
    · rw [if_pos lost, silent, fewer]
      exact (dropped_perm _ _ _ _ _).trans kept
    · rw [if_neg (by simp [landing]), moved, List.append_assoc]
      exact kept.append_left _

end Kept

section Gets

/-- The `get` of `c` has looked in `buf` and then in `immutable_buf` before the instant, and
neither had the key. -/
def Passed (trace : Trace Client Path) (c : Client) (key : Key) (late : Trace Client Path) :
    Prop :=
  ∃ q₁ q₂, calledAt c trace <:+ q₁ ∧ q₁ <:+ q₂ ∧ q₂ <:+ late ∧
    latest (ledgerOf q₁).buffered key = none ∧ latest (ledgerOf q₂).frozen key = none

/-- Where the `get` of `c` stands and what it has not found. -/
structure Seeks (trace : Trace Client Path) (s : State Client Path) (c : Client) : Prop where
  immutable : ∀ key, s.thread c = .getImmutable key → ∃ q₁, Between (calledAt c trace) q₁ trace ∧
    latest (ledgerOf q₁).buffered key = none
  listing : ∀ key, s.thread c = .getListing key .Memory → Passed trace c key trace
  passed : ∀ key remaining, s.thread c = .getReading key .Memory remaining →
    Passed trace c key (listedAt c trace)
  reading : ∀ key level remaining, s.thread c = .getReading key level remaining →
    calledAt c trace <:+ listedAt c trace ∧ (∀ path ∈ remaining, path ∈ s.objects.keys) ∧
      scan (remaining.map (segmentTable s.objects)) key =
        latest (ledgerOf (listedAt c trace)).durable key

variable {trace : Trace Client Path} {s s' : State Client Path} {event : Event Client Path}

/-- Objects keep their names and their contents. -/
theorem Booked.objects_step {ledger : Ledger Path} (booked : Booked ledger s)
    (taken : Step s event s') (paths : List Path)
    (present : ∀ path ∈ paths, path ∈ s.objects.keys) :
    (∀ path ∈ paths, path ∈ s'.objects.keys) ∧
      paths.map (segmentTable s'.objects) = paths.map (segmentTable s.objects) := by
  cases taken with
  | @landed c filename content putting =>
      obtain ⟨-, -, -, below⟩ := booked.putting c filename content putting
      have fresh : filename ∉ s.objects.keys := by
        rw [booked.objects, keys_objectsOf booked.segments.descending]
        exact fun member => lt_irrefl _ (below _ member)
      refine ⟨?_, segmentTable_insert s.objects filename content fresh paths present⟩
      intro path member
      show path ∈ (s.objects.insert filename content).keys
      rw [keys_insert_fresh _ _ _ fresh]
      exact List.mem_cons_of_mem _ (present path member)
  | _ => exact ⟨present, rfl⟩

theorem seeks_beside {c : Client} (booked : Booked (ledgerOf trace) s) (seeks : Seeks trace s c)
    (taken : Step s event s') (beside : c ≠ actor event) : Seeks (event :: trace) s' c := by
  obtain ⟨uncalled, unlisted⟩ := marks_of_other c event beside
  have called : calledAt c (event :: trace) = calledAt c trace := before_miss _ _ _ uncalled
  have listed : listedAt c (event :: trace) = listedAt c trace := before_miss _ _ _ unlisted
  have thread := step_thread_other taken c beside
  constructor
  · intro key at'
    obtain ⟨q₁, inside, missed⟩ := seeks.immutable key (thread.symm.trans at')
    rw [called]
    exact ⟨q₁, inside.later event, missed⟩
  · intro key at'
    obtain ⟨q₁, q₂, since, order, past, missed⟩ := seeks.listing key (thread.symm.trans at')
    rw [Passed, called]
    exact ⟨q₁, q₂, since, order, past.trans (List.suffix_cons event trace), missed⟩
  · intro key remaining at'
    rw [Passed, called, listed]
    exact seeks.passed key remaining (thread.symm.trans at')
  · intro key level remaining at'
    obtain ⟨order, present, answers⟩ := seeks.reading key level remaining (thread.symm.trans at')
    obtain ⟨still, tables⟩ := booked.objects_step taken remaining present
    rw [called, listed, tables]
    exact ⟨order, still, answers⟩

theorem seeks_step (booked : Booked (ledgerOf trace) s) (seeks : ∀ c, Seeks trace s c)
    (taken : Step s event s') (c : Client) : Seeks (event :: trace) s' c := by
  by_cases beside : c ≠ actor event
  · exact seeks_beside booked (seeks c) taken beside
  · obtain rfl : c = actor event := not_not.mp beside
    have called (c : Client) (event : Event Client Path) (uncalled : isCalledBy c event = false) :
        calledAt c (event :: trace) = calledAt c trace := before_miss _ _ _ uncalled
    cases taken with
    | @bufMissed c key looking missed =>
        constructor
        · intro key' at'
          simp only [actor, move_thread_self, Thread.getImmutable.injEq] at at'
          subst at'
          simp only [actor]
          rw [called c (.bufMissed c) rfl]
          refine ⟨trace, ⟨before_suffix _ trace, List.suffix_cons _ trace⟩, ?_⟩
          rw [← lookup_contentOf, ← booked.buffered]
          exact missed
        all_goals simp [actor, State.move]
    | @immutableMissed c key looking missed =>
        constructor
        · simp [actor, State.move]
        · intro key' at'
          simp only [actor, move_thread_self, Thread.getListing.injEq, and_true] at at'
          subst at'
          obtain ⟨q₁, inside, absent⟩ := (seeks c).immutable key looking
          simp only [actor]
          rw [Passed, called c (.immutableMissed c) rfl]
          refine ⟨q₁, trace, inside.1, inside.2, List.suffix_cons _ trace, absent, ?_⟩
          rw [← lookup_contentOf, ← booked.frozen]
          exact missed
        all_goals simp [actor, State.move]
    | @listed c key level listing at_list lists =>
        have listed : listedAt c (.listed c :: trace) = trace :=
          before_hit _ _ _ (by simp [isListedBy])
        have order : listing.reverse = s.objects.keys := by
          apply listing_unique s.objects listing _ lists
          rw [booked.objects, keys_objectsOf booked.segments.descending]
          exact booked.segments.descending
        constructor
        · simp [actor, State.move]
        · simp [actor, State.move]
        · intro key' remaining at'
          simp only [actor, move_thread_self, Thread.getReading.injEq] at at'
          obtain ⟨rfl, rfl, rfl⟩ := at'
          simp only [actor]
          rw [Passed, called c (.listed c) rfl, listed]
          exact (seeks c).listing key at_list
        · intro key' level' remaining at'
          simp only [actor, move_thread_self, Thread.getReading.injEq] at at'
          obtain ⟨rfl, rfl, rfl⟩ := at'
          simp only [actor]
          rw [called c (.listed c) rfl, listed, order]
          refine ⟨before_suffix _ trace, fun path member => member, ?_⟩
          show scan (s.objects.keys.map (segmentTable s.objects)) key = _
          rw [booked.objects]
          exact answers_objectsOf booked.segments.descending key
    | @segmentPassed c key level path rest reading passed =>
        have listed : listedAt c (.segmentPassed c :: trace) = listedAt c trace :=
          before_miss _ _ _ rfl
        have missed : segmentTable s.objects path key = none := by
          rw [look_in_segment_fetch] at passed
          exact Option.map_eq_none_iff.mp passed
        constructor
        · simp [actor, State.move]
        · simp [actor, State.move]
        · intro key' remaining at'
          simp only [actor, move_thread_self, Thread.getReading.injEq] at at'
          obtain ⟨rfl, rfl, rfl⟩ := at'
          simp only [actor]
          rw [Passed, called c (.segmentPassed c) rfl, listed]
          exact (seeks c).passed key _ reading
        · intro key' level' remaining at'
          simp only [actor, move_thread_self, Thread.getReading.injEq] at at'
          obtain ⟨rfl, rfl, rfl⟩ := at'
          obtain ⟨order, present, answers⟩ := (seeks c).reading key level _ reading
          simp only [actor]
          rw [called c (.segmentPassed c) rfl, listed]
          refine ⟨order, fun p member => present p (List.mem_cons_of_mem _ member), ?_⟩
          rw [List.map_cons, scan, missed, Option.none_or] at answers
          exact answers
    | _ => constructor <;> simp_all [actor, State.move, State.openGate]

theorem seeks_run {admits : Trace Client Path → State Client Path → Event Client Path → Prop}
    (run : Run system admits trace s) (c : Client) : Seeks trace s c := by
  revert c
  apply run.invariant fun trace s => ∀ c, Seeks trace s c
  · intro s start c
    obtain rfl : s = initial := start
    constructor <;> simp [initial]
  · intro _ _ _ _ before seeks _ taken
    exact seeks_step (booked_run before) seeks taken

theorem remote_finds {past : Trace Client Path} {c : Client} {key : Key}
    {answer : Except IoError Value} (seeks : Seeks past s c)
    (taken : Step s (.getReturned c key .Remote answer) s') :
    Between (calledAt c past) (listedAt c past) past ∧
      answer = .ok (latest (ledgerOf (listedAt c past)).durable key).join := by
  have listed : listedAt c past <:+ past := before_suffix _ past
  cases taken with
  | segmentAnswered c reading answered =>
      obtain ⟨called, -, answers⟩ := seeks.reading key .Remote _ reading
      rw [look_in_segment_fetch] at answered
      obtain ⟨value, found, rfl⟩ := Option.map_eq_some_iff.mp answered
      rw [List.map_cons, scan, found] at answers
      rw [← answers]
      exact ⟨⟨called, listed⟩, rfl⟩
  | scanEnded c reading =>
      obtain ⟨called, -, answers⟩ := seeks.reading key .Remote _ reading
      rw [← answers]
      exact ⟨⟨called, listed⟩, rfl⟩

/-- What `get` finds in the three places where it looks, at three instants. -/
def foundIn (buf immutable_buf segments : Trace Client Path) (key : Key) : Value :=
  ((latest (ledgerOf buf).buffered key).or
    ((latest (ledgerOf immutable_buf).frozen key).or
      (latest (ledgerOf segments).durable key))).join

theorem memory_finds {past : Trace Client Path} {c : Client} {key : Key}
    {answer : Except IoError Value} (booked : Booked (ledgerOf past) s) (seeks : Seeks past s c)
    (taken : Step s (.getReturned c key .Memory answer) s') :
    ∃ q₁ q₂ q₃, calledAt c past <:+ q₁ ∧ q₁ <:+ q₂ ∧ q₂ <:+ q₃ ∧ q₃ <:+ past ∧
      answer = .ok (foundIn q₁ q₂ q₃ key) := by
  have listed : listedAt c past <:+ past := before_suffix _ past
  have now := List.suffix_refl past
  cases taken with
  | bufFound c looking found =>
      rw [booked.buffered, lookup_contentOf] at found
      refine ⟨past, past, past, before_suffix _ past, now, now, now, ?_⟩
      rw [foundIn, found]
      rfl
  | immutableFound c looking found =>
      obtain ⟨q₁, inside, missed⟩ := seeks.immutable key looking
      rw [booked.frozen, lookup_contentOf] at found
      refine ⟨q₁, past, past, inside.1, inside.2, now, now, ?_⟩
      rw [foundIn, missed, found]
      rfl
  | segmentAnswered c reading answered =>
      obtain ⟨q₁, q₂, since, order, past, missed, absent⟩ := seeks.passed key _ reading
      obtain ⟨-, -, answers⟩ := seeks.reading key .Memory _ reading
      rw [look_in_segment_fetch] at answered
      obtain ⟨value, found, rfl⟩ := Option.map_eq_some_iff.mp answered
      rw [List.map_cons, scan, found] at answers
      refine ⟨q₁, q₂, _, since, order, past, listed, ?_⟩
      rw [foundIn, missed, absent, ← answers]
      rfl
  | scanEnded c reading =>
      obtain ⟨q₁, q₂, since, order, past, missed, absent⟩ := seeks.passed key _ reading
      obtain ⟨-, -, answers⟩ := seeks.reading key .Memory _ reading
      refine ⟨q₁, q₂, _, since, order, past, listed, ?_⟩
      rw [foundIn, missed, absent, ← answers]
      rfl

/-- Whatever puts of the object store fail and whatever flushes are dropped, the store
loses the writes that those carried and no others, and gets find exactly what is kept: a
Remote get the writes that had landed when it listed, a Memory get first those in `buf`,
then those in `immutable_buf`, then those that had landed. Writes on their way to the
object store are found by neither. -/
theorem gets_find_kept_writes (run : Run system anyStep trace s) :
    ((ledgerOf trace).kept.Sublist (writes trace) ∧
        ((ledgerOf trace).kept ++ lostBy trace).Perm (writes trace)) ∧
      (∀ get : GetCall .Remote trace, Between get.began get.listed get.past ∧
        get.answer = .ok (latest (ledgerOf get.listed).durable get.key).join) ∧
      ∀ get : GetCall .Memory trace, ∃ q₁ q₂ q₃, get.began <:+ q₁ ∧ q₁ <:+ q₂ ∧ q₂ <:+ q₃ ∧
        q₃ <:+ get.past ∧ get.answer = .ok (foundIn q₁ q₂ q₃ get.key) := by
  refine ⟨⟨kept_sublist run, kept_or_lost run⟩, ?_, ?_⟩
  · intro get
    obtain ⟨c, key, answer, past, returned⟩ := get
    obtain ⟨s₁, s₂, before, -, taken⟩ := run.emitted returned
    exact remote_finds (seeks_run before c) taken
  · intro get
    obtain ⟨c, key, answer, past, returned⟩ := get
    obtain ⟨s₁, s₂, before, -, taken⟩ := run.emitted returned
    exact memory_finds (booked_run before) (seeks_run before c) taken

/-- A flush whose put fails, and a Memory get of a key that it took. -/
def lostTrace : Trace Unit Nat :=
  [.getReturned () "k" .Memory (.ok none), .listed (), .immutableMissed (), .bufMissed (),
    .getCalled () "k" .Memory, .put () "l" [2], .putFailed (), .taken (), .frozen (),
    .gateTaken (), .flushCalled (), .put () "k" [1]]

theorem gets_find_kept_writes_lost :
    (∃ s, Run system anyStep lostTrace s) ∧
      ((ledgerOf lostTrace).kept ++ [("k", some [1])]).Perm [("l", some [2]), ("k", some [1])] ∧
      ∃ q₁ q₂ q₃, q₁ <:+ q₂ ∧ q₂ <:+ q₃ ∧ q₃ <:+ lostTrace.tail ∧
        (.ok none : Except IoError Value) = .ok (foundIn q₁ q₂ q₃ "k") := by
  have start : Run system anyStep [] (initial : State Unit Nat) := .start rfl
  have flushed := (((((start.step (.put () "k" [1] rfl) trivial).step
    (.flushCalled () rfl) trivial).step
    (.gateTaken () rfl rfl) trivial).step
    (.frozen () rfl rfl) trivial).step
    (.taken () 1 rfl rfl (by decide)) trivial).step
    (.putFailed () rfl) trivial
  have got := ((((flushed.step (.put () "l" [2] rfl) trivial).step
    (.getCalled () "k" .Memory rfl) trivial).step
    (.bufMissed () rfl (by decide)) trivial).step
    (.immutableMissed () rfl rfl) trivial).step
    (.listed () [] rfl ⟨List.Perm.nil, List.Pairwise.nil⟩) trivial
  have run : ∃ s, Run system anyStep lostTrace s :=
    ⟨_, got.step (.scanEnded () rfl) trivial⟩
  refine ⟨run, ?_⟩
  obtain ⟨s, run⟩ := run
  obtain ⟨⟨-, kept⟩, -, memory⟩ := gets_find_kept_writes run
  obtain ⟨q₁, q₂, q₃, -, order, later, past, answer⟩ :=
    memory ⟨(), "k", .ok none, _, List.suffix_refl _⟩
  exact ⟨kept, q₁, q₂, q₃, order, later, past, answer⟩

end Gets

end FizzbeeMbt.RustStore
