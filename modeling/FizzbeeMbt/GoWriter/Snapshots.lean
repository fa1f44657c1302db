import FizzbeeMbt.GoWriter.Writer

/-! What the methods of the buffered writer keep and return: the appended values, in order. -/

namespace FizzbeeMbt.GoWriter

open FizzbeeMbt.Runs

variable {Client : Type} [DecidableEq Client]

section History

/-- The appended values, in the order of the Append steps. -/
def appended : List (Event Client) → List Int
  | [] => []
  | .append x :: earlier => appended earlier ++ [x]
  | _ :: earlier => appended earlier

def Event.isAppend : Event Client → Bool
  | .append _ => true
  | _ => false

def Event.isCall (c : Client) (event : Event Client) : Bool := event = .call c

/-- The instant of the newest call of State by a client. -/
def calledAt (c : Client) (trace : List (Event Client)) : List (Event Client) :=
  before (Event.isCall c) trace

omit [DecidableEq Client] in
theorem appended_length (trace : List (Event Client)) :
    (appended trace).length = trace.countP Event.isAppend := by
  induction trace with
  | nil => rfl
  | cons event trace ih => cases event <;> simp [appended, Event.isAppend, List.countP_cons, ih]

end History

theorem conserved {trace : List (Event Client)} {w : World Client} {admits}
    (run : Run system admits trace w) : w.bw.flushed ++ w.bw.buffered = appended trace := by
  apply run.invariant (fun trace w => w.bw.flushed ++ w.bw.buffered = appended trace)
  · rintro w ⟨new, -⟩
    rw [new]
    rfl
  · intro trace w event w' _ kept _ taken
    cases taken with
    | append x => exact (List.append_assoc _ _ _).symm.trans (congrArg (· ++ [x]) kept)
    | flush => exact (List.append_nil _).trans kept
    | _ => exact kept

theorem length_appended {trace past : List (Event Client)} {w : World Client} {admits}
    (run : Run system admits trace w) {length : Nat}
    (returned : .getLength length :: past <:+ trace) : length = past.countP Event.isAppend := by
  obtain ⟨w₁, w₂, upto, -, taken⟩ := run.emitted returned
  cases taken with
  | getLength => rw [← appended_length, ← conserved upto, List.length_append]; rfl

section Snapshots

/-- The call holds a field whose other half a Flush would move items to or from. -/
def Call.torn (bw : BufferedWriter) : Call → Prop
  | .holdsBuffered buffered => buffered ≠ []
  | .holdsFlushed _ => bw.buffered ≠ []
  | _ => False

/-- No Flush moves an item between the two field reads of a State. -/
def untorn (_ : List (Event Client)) (w : World Client) (event : Event Client) : Prop :=
  event = .flush → ∀ c, ¬(w.state c).torn w.bw

/-- What a call has read so far fits the values appended at an instant since `early`. -/
def Call.consistent (bw : BufferedWriter) (early trace : List (Event Client)) : Call → Prop
  | .holdsBuffered buffered => ∃ p, Between early p trace ∧ bw.flushed ++ buffered = appended p
  | .holdsFlushed flushed => flushed = bw.flushed
  | .holdsBoth buffered flushed => ∃ p, Between early p trace ∧ flushed ++ buffered = appended p
  | _ => True

structure Snapshot (bw : BufferedWriter) (trace : List (Event Client)) (c : Client) (call : Call) :
    Prop where
  begun : call ≠ .idle → .call c ∈ trace
  consistent : call.consistent bw (calledAt c trace) trace

variable {bw bw' : BufferedWriter} {trace : List (Event Client)} {c : Client} {call : Call}

/-- Appends and steps of other calls leave what a call has read as it was. -/
theorem Snapshot.later (snapshot : Snapshot bw trace c call) (same : bw'.flushed = bw.flushed)
    {event : Event Client} (uncalled : Event.isCall c event = false) :
    Snapshot bw' (event :: trace) c call := by
  obtain ⟨begun, consistent⟩ := snapshot
  refine ⟨fun busy => List.mem_cons_of_mem event (begun busy), ?_⟩
  rw [calledAt, before_miss _ _ _ uncalled]
  cases call with
  | idle => trivial
  | called => trivial
  | holdsBuffered buffered =>
      obtain ⟨p, inside, fits⟩ := consistent
      exact ⟨p, inside.later event, by rw [same, fits]⟩
  | holdsFlushed flushed => exact Eq.trans consistent same.symm
  | holdsBoth buffered flushed =>
      obtain ⟨p, inside, fits⟩ := consistent
      exact ⟨p, inside.later event, fits⟩

theorem Snapshot.flush (snapshot : Snapshot bw trace c call) (whole : ¬call.torn bw)
    (kept : bw.flushed ++ bw.buffered = appended trace) :
    Snapshot bw.Flush (.flush :: trace) c call := by
  have uncalled : Event.isCall c .flush = false := rfl
  cases call with
  | holdsBuffered buffered =>
      refine ⟨fun busy => List.mem_cons_of_mem _ (snapshot.begun busy), _,
        between_now (before_suffix _ _), ?_⟩
      obtain rfl : buffered = [] := by simpa [Call.torn] using whole
      exact (List.append_nil _).trans kept
  | holdsFlushed flushed =>
      have empty : bw.buffered = [] := by simpa [Call.torn] using whole
      exact snapshot.later (by simp [BufferedWriter.Flush, empty]) uncalled
  | holdsBoth buffered flushed =>
      obtain ⟨begun, p, inside, fits⟩ := snapshot
      refine ⟨fun busy => List.mem_cons_of_mem _ (begun busy), p, ?_, fits⟩
      rw [calledAt, before_miss _ _ _ uncalled]
      exact inside.later .flush
  | idle => exact ⟨fun busy => absurd rfl busy, trivial⟩
  | called => exact ⟨fun busy => List.mem_cons_of_mem _ (snapshot.begun busy), trivial⟩

theorem Snapshot.readBuffered (snapshot : Snapshot bw trace c call) {next : Call}
    (reads : call.readBuffered bw = some next) (kept : bw.flushed ++ bw.buffered = appended trace) :
    Snapshot bw (.readBuffered c :: trace) c next := by
  have now : Between (calledAt c (.readBuffered c :: trace)) (.readBuffered c :: trace)
      (.readBuffered c :: trace) := between_now (before_suffix _ _)
  have busy : call ≠ .idle := by
    rintro rfl
    cases reads
  have begun := List.mem_cons_of_mem (Event.readBuffered c) (snapshot.begun busy)
  cases call with
  | called =>
      obtain rfl := Option.some.inj reads
      exact ⟨fun _ => begun, _, now, kept⟩
  | holdsFlushed flushed =>
      obtain rfl := Option.some.inj reads
      obtain rfl := snapshot.consistent
      exact ⟨fun _ => begun, _, now, kept⟩
  | _ => cases reads

theorem Snapshot.readFlushed (snapshot : Snapshot bw trace c call) {next : Call}
    (reads : call.readFlushed bw = some next) : Snapshot bw (.readFlushed c :: trace) c next := by
  have busy : call ≠ .idle := by
    rintro rfl
    cases reads
  have begun := List.mem_cons_of_mem (Event.readFlushed c) (snapshot.begun busy)
  cases call with
  | called =>
      obtain rfl := Option.some.inj reads
      exact ⟨fun _ => begun, rfl⟩
  | holdsBuffered buffered =>
      obtain rfl := Option.some.inj reads
      exact ⟨fun _ => begun, (snapshot.later rfl rfl).consistent⟩
  | _ => cases reads

/-- A step of a State call moves that call and leaves the others where they were. -/
theorem snapshots_at {w : World Client} (snapshots : ∀ d, Snapshot w.bw trace d (w.state d))
    {event : Event Client} (moved : Snapshot w.bw (event :: trace) c call)
    (others : ∀ d ≠ c, Event.isCall d event = false) (d : Client) :
    Snapshot w.bw (event :: trace) d ((w.at c call).state d) := by
  by_cases mine : d = c
  · subst mine
    simp only [World.at, Function.update_self]
    exact moved
  · simp only [World.at, Function.update_of_ne mine]
    exact (snapshots d).later rfl (others d mine)

theorem snapshots_run {w : World Client} (run : Run system untorn trace w) :
    ∀ c, Snapshot w.bw trace c (w.state c) := by
  refine run.invariant (fun trace w => ∀ c, Snapshot w.bw trace c (w.state c)) ?_ ?_
  · rintro w ⟨-, idle⟩ c
    rw [idle c]
    exact ⟨fun busy => absurd rfl busy, trivial⟩
  · intro trace w event w' upto snapshots whole taken d
    have kept := conserved upto
    cases taken with
    | append x => exact (snapshots d).later (by rfl) (by rfl)
    | flush => exact (snapshots d).flush (whole rfl d) kept
    | getLength => exact (snapshots d).later rfl rfl
    | call c idle =>
        have moved : Snapshot w.bw (.call c :: trace) c .called :=
          ⟨fun _ => List.mem_cons_self, trivial⟩
        exact snapshots_at snapshots moved
          (fun d other => by simp [Event.isCall, Ne.symm other]) d
    | readBuffered c reads =>
        exact snapshots_at snapshots ((snapshots c).readBuffered reads kept) (fun _ _ => rfl) d
    | readFlushed c reads =>
        exact snapshots_at snapshots ((snapshots c).readFlushed reads) (fun _ _ => rfl) d
    | returned c holds =>
        have moved (b f : List Int) : Snapshot w.bw (.returned c b f :: trace) c .idle :=
          ⟨fun busy => absurd rfl busy, trivial⟩
        exact snapshots_at snapshots (moved _ _) (fun _ _ => rfl) d

end Snapshots

/-- The methods under `mu` keep and count what was appended in every run; State reports
what was appended at an instant of its call if no Flush tears its two reads. -/
theorem buffered_writer (trace : List (Event Client)) (w : World Client) :
    (Run system anyStep trace w →
      w.bw.flushed ++ w.bw.buffered = appended trace ∧
      ∀ length past, .getLength length :: past <:+ trace →
        length = past.countP Event.isAppend) ∧
    (Run system untorn trace w → ∀ c buffered flushed past,
      .returned c buffered flushed :: past <:+ trace →
        .call c ∈ past ∧
        ∃ p, Between (calledAt c past) p past ∧ flushed ++ buffered = appended p) := by
  refine ⟨fun run => ⟨conserved run, fun length past => length_appended run⟩, ?_⟩
  intro run c buffered flushed past returned
  obtain ⟨w₁, w₂, upto, -, taken⟩ := run.emitted returned
  have snapshot := snapshots_run upto c
  cases taken with
  | returned _ holds =>
      rw [holds] at snapshot
      exact ⟨snapshot.begun (by simp), snapshot.consistent⟩

def started : World Unit := ⟨NewBufferedWriter, fun _ => .idle⟩

/-- An Append between the two reads of a State. -/
def overtaken : List (Event Unit) :=
  [.getLength 3, .returned () [2] [1], .readFlushed (), .append 3, .readBuffered (), .call (),
    .append 2, .flush, .append 1]

theorem overtaken_run : ∃ w, Run system untorn overtaken w := by
  have start : Run system untorn [] started := .start ⟨rfl, fun _ => rfl⟩
  have filled := start.step (.append _ 1) (fun flushes => by cases flushes)
  have flushed := filled.step (.flush _) (fun _ _ => by simp [started, Call.torn])
  have appended := flushed.step (.append _ 2) (fun flushes => by cases flushes)
  have called := appended.step (.call _ () rfl) (fun flushes => by cases flushes)
  have half := called.step (.readBuffered _ () rfl) (fun flushes => by cases flushes)
  have passed := half.step (.append _ 3) (fun flushes => by cases flushes)
  have both := passed.step (.readFlushed _ () rfl) (fun flushes => by cases flushes)
  have returned := both.step (.returned _ () rfl) (fun flushes => by cases flushes)
  exact ⟨_, returned.step (.getLength _) (fun flushes => by cases flushes)⟩

theorem buffered_writer_overtaken :
    ∃ w : World Unit, w.bw.flushed ++ w.bw.buffered = [1, 2, 3] ∧
      3 = overtaken.tail.countP Event.isAppend ∧
      ∃ p, Between (calledAt () (overtaken.drop 2)) p (overtaken.drop 2) ∧
        [1] ++ [2] = appended p := by
  obtain ⟨w, run⟩ := overtaken_run
  obtain ⟨always, snapshots⟩ := buffered_writer overtaken w
  obtain ⟨kept, lengths⟩ := always (run.refine fun _ _ _ _ _ _ _ => trivial)
  exact ⟨w, kept, lengths 3 overtaken.tail (List.suffix_refl overtaken),
    (snapshots run () [2] [1] _ (List.drop_suffix 1 overtaken)).2⟩

/-- Without the condition a Flush between the reads shows an item twice or not at all. -/
def duplicated : List (Event Unit) :=
  [.returned () [1] [1], .readFlushed (), .flush, .readBuffered (), .call (), .append 1]

def lost : List (Event Unit) :=
  [.returned () [] [], .readBuffered (), .flush, .readFlushed (), .call (), .append 1]

theorem duplicated_run : ∃ w, Run system anyStep duplicated w := by
  have start : Run system anyStep [] started := .start ⟨rfl, fun _ => rfl⟩
  have called := (start.step (.append _ 1) trivial).step (.call _ () rfl) trivial
  have half := called.step (.readBuffered _ () rfl) trivial
  have both := (half.step (.flush _) trivial).step (.readFlushed _ () rfl) trivial
  exact ⟨_, both.step (.returned _ () rfl) trivial⟩

theorem lost_run : ∃ w, Run system anyStep lost w := by
  have start : Run system anyStep [] started := .start ⟨rfl, fun _ => rfl⟩
  have called := (start.step (.append _ 1) trivial).step (.call _ () rfl) trivial
  have half := called.step (.readFlushed _ () rfl) trivial
  have both := (half.step (.flush _) trivial).step (.readBuffered _ () rfl) trivial
  exact ⟨_, both.step (.returned _ () rfl) trivial⟩

theorem state_torn_by_flush :
    ((∃ w, Run system anyStep duplicated w) ∧
      ∀ p, Between (calledAt () duplicated.tail) p duplicated.tail →
        [1] ++ [1] ≠ appended p) ∧
    (∃ w, Run system anyStep lost w) ∧
      ∀ p, Between (calledAt () lost.tail) p lost.tail → [] ++ [] ≠ appended p := by
  refine ⟨⟨duplicated_run, ?_⟩, lost_run, ?_⟩
  · rintro p ⟨-, late⟩
    have past := (List.mem_tails p duplicated.tail).mpr late
    clear late
    revert p
    decide
  · rintro p ⟨early, late⟩
    have past := (List.mem_tails p lost.tail).mpr late
    clear late
    revert early
    revert p
    decide

end FizzbeeMbt.GoWriter
