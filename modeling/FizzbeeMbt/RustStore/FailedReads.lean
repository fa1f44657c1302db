import FizzbeeMbt.RustStore.Session

/-! Gets of the Rust store whose listing or segment reads fail. -/

namespace FizzbeeMbt.RustStore

open FizzbeeMbt.Maps FizzbeeMbt.Deltas FizzbeeMbt.Runs

section Scans

variable {Path : Type} [LinearOrder Path]

/-- The reads that `read_segment` turns into an error. -/
def Fetched.failed : Fetched → Bool
  | .getFailed _ => true
  | .bytesFailed _ => true
  | .decodeFailed _ => true
  | _ => false

theorem failed_iff (fetched : Fetched) :
    fetched.failed = true ↔ ∃ e, read_segment fetched = .error e := by
  cases fetched <;> simp [Fetched.failed, read_segment]

/-- Reads of a store, any of which may have failed. -/
def Faulty (objects : ObjectStore Path) (reads : Path → Fetched) : Prop :=
  ∀ path, reads path = fetch objects path ∨ (reads path).failed = true

/-- A scan of the paths meets a failed read before it meets the key. -/
def FailsFirst (objects : ObjectStore Path) (reads : Path → Fetched) (key : Key) :
    List Path → Prop
  | [] => False
  | path :: older =>
      (reads path).failed = true ∨
        segmentTable objects path key = none ∧ FailsFirst objects reads key older

variable {objects : ObjectStore Path} {reads : Path → Fetched} {key : Key}

theorem scan_fails_first (faulty : Faulty objects reads) {paths : List Path}
    (fails : FailsFirst objects reads key paths) :
    ∃ e, scan_segments reads key paths = .error e := by
  induction paths with
  | nil => cases fails
  | cons path older ih =>
      unfold scan_segments
      cases failed : (reads path).failed with
      | true =>
          obtain ⟨e, read⟩ := (failed_iff _).mp failed
          exact ⟨e, by simp [look_in_segment, read]⟩
      | false =>
          rcases fails with first | ⟨absent, later⟩
          · exact absurd (failed.symm.trans first) (by simp)
          · rcases faulty path with real | first
            · rw [real, look_in_segment_fetch, absent]
              exact ih later
            · exact absurd (failed.symm.trans first) (by simp)

theorem scan_reads_on (faulty : Faulty objects reads) {paths : List Path}
    (reaches : ¬FailsFirst objects reads key paths) :
    scan_segments reads key paths = .ok (scan (paths.map (segmentTable objects)) key).join := by
  induction paths with
  | nil => rfl
  | cons path older ih =>
      have real : reads path = fetch objects path :=
        (faulty path).resolve_right fun failed => reaches (Or.inl failed)
      simp only [scan_segments, List.map_cons, scan, real, look_in_segment_fetch]
      cases held : segmentTable objects path key with
      | some value => rfl
      | none =>
          rw [Option.none_or]
          exact ih fun fails => reaches (Or.inr ⟨held, fails⟩)

/-- Newest first, a scan fails exactly when a read failed of a segment that is at least
as new as every segment with the key. -/
theorem failsFirst_iff {paths : List Path} (descending : paths.Pairwise (· > ·)) :
    FailsFirst objects reads key paths ↔
      ∃ path ∈ paths, (reads path).failed = true ∧
        ∀ holder ∈ paths, segmentTable objects holder key ≠ none → holder ≤ path := by
  induction paths with
  | nil => simp [FailsFirst]
  | cons newest older ih =>
      obtain ⟨above, descending⟩ := List.pairwise_cons.mp descending
      have below : ∀ path ∈ newest :: older, path ≤ newest := by
        intro path member
        rcases List.mem_cons.mp member with rfl | member
        · exact le_refl path
        · exact le_of_lt (above path member)
      unfold FailsFirst
      rw [ih descending]
      constructor
      · rintro (failed | ⟨absent, path, member, failed, newer⟩)
        · exact ⟨newest, List.mem_cons_self, failed, fun holder member _ => below holder member⟩
        · refine ⟨path, List.mem_cons_of_mem _ member, failed, ?_⟩
          intro holder among held
          rcases List.mem_cons.mp among with rfl | among
          · exact absurd absent held
          · exact newer holder among held
      · rintro ⟨path, member, failed, newer⟩
        rcases List.mem_cons.mp member with rfl | member
        · exact Or.inl failed
        · refine Or.inr ⟨?_, path, member, failed, fun holder among =>
            newer holder (List.mem_cons_of_mem _ among)⟩
          by_contra held
          exact absurd (newer newest List.mem_cons_self held) (not_le_of_gt (above path member))

end Scans

section Gets

variable {Client Path : Type} [DecidableEq Client] [LinearOrder Path]

/-- One of the buffers of the store has an entry for the key. -/
def EmbeddedKvStore.Buffers (kv : EmbeddedKvStore) (key : Key) : Prop :=
  kv.buf.lookup key ≠ none ∨ kv.immutable_buf.lookup key ≠ none

/-- The puts and deletes that a get reports on when no flush is running. -/
def visibleAt (trace : Trace Client Path) (level : DurabilityLevel) : History Key RawValue :=
  match level with
  | .Remote => writes (landedAt trace)
  | .Memory => writes trace

/-- While no flush is running the buffers lead from the segments to now. -/
theorem free_layers {trace : Trace Client Path} {s : State Client Path}
    (run : Run system faultFree trace s) (free : s.flush_gate = none) :
    Delta (tableOf s.store.immutable_buf) (writes (landedAt trace)) (writes (pendingAt trace)) ∧
      Delta (tableOf s.store.buf) (writes (pendingAt trace)) (writes trace) := by
  have layers := layers_run (lossless_run run)
  have grounded : s.inFlight.isEmpty = true := by
    rw [State.inFlight, free]
    rfl
  refine ⟨?_, layers.buffered⟩
  rw [landedAt_eq_durableAt run]
  exact layers.frozen.congr fun key => (overlay_above grounded key).symm

theorem get_buffered {trace : Trace Client Path} {s : State Client Path}
    (run : Run system faultFree trace s) (free : s.flush_gate = none) (key : Key)
    (held : s.store.Buffers key) (listing : Except String (List Path)) (reads : Path → Fetched) :
    s.store.get listing reads key .Memory = .ok (latest (writes trace) key).join := by
  obtain ⟨frozen, buffered⟩ := free_layers run free
  unfold EmbeddedKvStore.get
  cases live : s.store.buf.lookup key with
  | some value =>
      rw [buffered.hit live]
      rfl
  | none =>
      have missed := buffered.miss live
      cases cold : s.store.immutable_buf.lookup key with
      | some value =>
          rw [missed, frozen.hit cold]
          rfl
      | none => exact absurd held (by simp [EmbeddedKvStore.Buffers, live, cold])

/-- A get that the buffers do not answer lists and reads the segments, which answer for
all that it reports on. -/
theorem get_unbuffered {trace : Trace Client Path} {s : State Client Path}
    (run : Run system faultFree trace s) (free : s.flush_gate = none) (key : Key)
    (level : DurabilityLevel) (unbuffered : ¬(level = .Memory ∧ s.store.Buffers key)) :
    (∀ (listing : Except String (List Path)) (reads : Path → Fetched),
        s.store.get listing reads key level = get_listed listing reads key) ∧
      latest (writes (landedAt trace)) key = latest (visibleAt trace level) key := by
  cases level with
  | Remote => exact ⟨fun _ _ => rfl, rfl⟩
  | Memory =>
      obtain ⟨frozen, buffered⟩ := free_layers run free
      have missed : s.store.buf.lookup key = none ∧ s.store.immutable_buf.lookup key = none := by
        simpa [EmbeddedKvStore.Buffers] using unbuffered
      constructor
      · intro listing reads
        simp only [EmbeddedKvStore.get, missed.1, missed.2]
      · exact ((buffered.miss missed.1).trans (frozen.miss missed.2)).symm

/-- A get of the listed segments, over reads any of which may have failed. -/
theorem listed_fails_or_answers {trace : Trace Client Path} {s : State Client Path}
    (run : Run system faultFree trace s) (key : Key) {listing : List Path}
    (lists : ListsAscending s.objects listing) {reads : Path → Fetched}
    (faulty : Faulty s.objects reads) :
    ((∃ e, get_listed (.ok listing) reads key = .error e) ↔
        ∃ path ∈ s.objects.keys, (reads path).failed = true ∧
          ∀ holder, segmentTable s.objects holder key ≠ none → holder ≤ path) ∧
      ((∃ e, get_listed (.ok listing) reads key = .error e) ∨
        get_listed (.ok listing) reads key = .ok (latest (writes (landedAt trace)) key).join) := by
  have layers := layers_run (lossless_run run)
  have newestFirst := listing_unique s.objects listing layers.descending lists
  have answers := layers.segments key
  rw [← landedAt_eq_durableAt run] at answers
  simp only [RustStore.get_listed, newestFirst]
  have holders : (∃ path ∈ s.objects.keys, (reads path).failed = true ∧
      ∀ holder, segmentTable s.objects holder key ≠ none → holder ≤ path) ↔
        FailsFirst s.objects reads key s.objects.keys := by
    rw [failsFirst_iff layers.descending]
    constructor
    · rintro ⟨path, member, failed, newer⟩
      exact ⟨path, member, failed, fun holder _ held => newer holder held⟩
    · rintro ⟨path, member, failed, newer⟩
      exact ⟨path, member, failed, fun holder held =>
        newer holder (mem_of_segmentTable s.objects holder key held) held⟩
  rw [holders]
  by_cases fails : FailsFirst s.objects reads key s.objects.keys
  · have failed := scan_fails_first faulty fails
    exact ⟨⟨fun _ => fails, fun _ => failed⟩, Or.inl failed⟩
  · have answered := scan_reads_on faulty fails
    rw [answers] at answered
    refine ⟨⟨?_, fun first => absurd first fails⟩, Or.inr answered⟩
    rintro ⟨e, failed⟩
    cases answered.symm.trans failed

/-- Whatever fails, a get while no flush is running returns an error or the outcome of
the last visible put or delete, as it does when nothing fails. It returns an error
exactly when it goes to the segments and the listing failed, or the read of a segment at
least as new as every segment with the key. -/
theorem get_fails_or_answers {trace : Trace Client Path} {s : State Client Path}
    (run : Run system faultFree trace s) (free : s.flush_gate = none) (key : Key)
    (level : DurabilityLevel) (listing : Except String (List Path))
    (lists : ∀ objects, listing = .ok objects → ListsAscending s.objects objects)
    (reads : Path → Fetched) (faulty : Faulty s.objects reads) :
    ((∃ e, s.store.get listing reads key level = .error e) ∨
        s.store.get listing reads key level = .ok (latest (visibleAt trace level) key).join) ∧
      (∀ objects, ListsAscending s.objects objects →
        s.store.get (.ok objects) (fetch s.objects) key level =
          .ok (latest (visibleAt trace level) key).join) ∧
      ((∃ e, s.store.get listing reads key level = .error e) ↔
        ¬(level = .Memory ∧ s.store.Buffers key) ∧
          ((∃ e, listing = .error e) ∨
            ∃ path ∈ s.objects.keys, (reads path).failed = true ∧
              ∀ holder, segmentTable s.objects holder key ≠ none → holder ≤ path)) := by
  by_cases buffered : level = .Memory ∧ s.store.Buffers key
  · obtain ⟨rfl, held⟩ := buffered
    have answered := get_buffered run free key held listing reads
    refine ⟨Or.inr answered, fun objects _ => get_buffered run free key held _ _, ?_⟩
    constructor
    · rintro ⟨e, failed⟩
      cases answered.symm.trans failed
    · rintro ⟨unbuffered, -⟩
      exact absurd ⟨rfl, held⟩ unbuffered
  · obtain ⟨listed, visible⟩ := get_unbuffered run free key level buffered
    rw [← visible]
    refine ⟨?_, ?_, ?_⟩
    · rw [listed]
      cases listing with
      | error e => exact Or.inl ⟨_, rfl⟩
      | ok objects => exact (listed_fails_or_answers run key (lists objects rfl) faulty).2
    · intro objects ascending
      rw [listed, landedAt_eq_durableAt run]
      exact (layers_run (lossless_run run)).get_listed key objects ascending
    · rw [listed]
      cases listing with
      | error e => exact ⟨fun _ => ⟨buffered, Or.inl ⟨e, rfl⟩⟩, fun _ => ⟨_, rfl⟩⟩
      | ok objects =>
          rw [(listed_fails_or_answers run key (lists objects rfl) faulty).1]
          constructor
          · intro failed
            exact ⟨buffered, Or.inr failed⟩
          · rintro ⟨-, ⟨e, listed⟩ | failed⟩
            · cases listed
            · exact failed

/-- Two segments, the older one with the key, newest call first. -/
def twoSegments : List Op := [.flush, .put "l" [2], .flush, .put "k" [1]]

/-- The newer of two segments does not decode. -/
def newerUndecodable (objects : ObjectStore Nat) (path : Nat) : Fetched :=
  if path = 1 then .decodeFailed "EOF" else fetch objects path

theorem get_fails_or_answers_newer :
    ∃ e, (session (id : Nat → Nat) twoSegments).store.get (.ok [0, 1])
      (newerUndecodable (session id twoSegments).objects) "k" .Remote = .error e := by
  obtain ⟨trace, run, -, -⟩ := session_run (id : Nat → Nat) strictMono_id twoSegments
  have lists : ListsAscending (session (id : Nat → Nat) twoSegments).objects [0, 1] :=
    ⟨List.Perm.swap 1 0 [], by simp⟩
  have faulty : Faulty (session (id : Nat → Nat) twoSegments).objects
      (newerUndecodable (session id twoSegments).objects) := by
    intro path
    unfold newerUndecodable
    split
    · exact Or.inr rfl
    · exact Or.inl rfl
  refine (get_fails_or_answers run rfl "k" .Remote (.ok [0, 1]) ?_ _ faulty).2.2.mpr ?_
  · rintro objects ⟨⟩
    exact lists
  · refine ⟨by simp, Or.inr ⟨1, List.mem_cons_self, rfl, ?_⟩⟩
    intro holder held
    have member := mem_of_segmentTable _ holder "k" held
    have bound : ∀ path ∈ (session (id : Nat → Nat) twoSegments).objects.keys, path ≤ 1 := by
      decide
    exact bound holder member

end Gets

end FizzbeeMbt.RustStore
