import FizzbeeMbt.GoWriter.Snapshots
import FizzbeeMbt.Lib.Refinement
import FizzbeeMbt.Lib.Slices

/-! The Go buffered writer with its two slices on the heap, where `buffered[:0]` keeps
the array and later Appends write over what was in it: what the writer itself sees of
that, and what a slice that State has handed out sees of it. -/

namespace FizzbeeMbt.GoWriter.Aliasing

open FizzbeeMbt.Runs FizzbeeMbt.Slices

/-- A `BufferedWriter` and the heap its slices lie in. -/
structure Memory where
  heap : Heap Int
  flushed : Slice
  buffered : Slice
  deriving DecidableEq, Repr

/-- Two `make([]int, 0)`. -/
def NewBufferedWriter : Memory := ⟨⟨[[], []]⟩, ⟨0, 0⟩, ⟨1, 0⟩⟩

namespace Memory

def Append (m : Memory) (spare : Nat) (x : Int) : Memory :=
  let appended := m.heap.append 0 spare m.buffered [x]
  { m with heap := appended.1, buffered := appended.2 }

def Flush (m : Memory) (spare : Nat) : Memory :=
  let appended := m.heap.append 0 spare m.flushed (m.heap.values m.buffered)
  { heap := appended.1, flushed := appended.2, buffered := m.buffered.cleared }

def GetLength (m : Memory) : Nat := m.flushed.length + m.buffered.length

/-- The slices as immutable values. -/
def view (m : Memory) : BufferedWriter := ⟨m.heap.values m.flushed, m.heap.values m.buffered⟩

end Memory

/-- `spare` is how many cells more than needed an array gets that a method allocates. -/
inductive Event where
  | append (x : Int) (spare : Nat)
  | flush (spare : Nat)
  | getLength (length : Nat)
  deriving DecidableEq, Repr

inductive Step : Memory → Event → Memory → Prop
  | append (m : Memory) (x : Int) (spare : Nat) : Step m (.append x spare) (m.Append spare x)
  | flush (m : Memory) (spare : Nat) : Step m (.flush spare) (m.Flush spare)
  | getLength (m : Memory) : Step m (.getLength m.GetLength) m

def system : System Memory Event where
  start m := m = NewBufferedWriter
  step := Step

/-- The slices lie within two arrays of their own. -/
structure Separate (m : Memory) : Prop where
  flushed : m.heap.Valid m.flushed
  buffered : m.heap.Valid m.buffered
  apart : m.flushed.array ≠ m.buffered.array

section Separation

variable {m : Memory}

/-- An `append` to one of two separate slices leaves the other one as it was. -/
theorem beside_append {heap : Heap Int} {slice other : Slice} (spare : Nat) (xs : List Int)
    (valid : heap.Valid slice) (still : heap.Valid other) (apart : other.array ≠ slice.array) :
    (heap.append 0 spare slice xs).1.Valid other ∧
      (heap.append 0 spare slice xs).1.values other = heap.values other ∧
        other.array ≠ (heap.append 0 spare slice xs).2.array := by
  have cells := append_other 0 spare xs valid still.allocated apart
  refine ⟨⟨still.allocated.trans_le (append_grows 0 spare xs heap slice), ?_⟩, ?_, ?_⟩
  · exact cells ▸ still.within
  · rw [Heap.values, cells, Heap.values]
  · rcases append_array 0 spare xs heap slice with same | fresh
    · rw [same]
      exact apart
    · rw [fresh]
      exact Nat.ne_of_lt still.allocated

theorem cleared_valid {heap : Heap Int} {slice : Slice} (valid : heap.Valid slice) :
    heap.Valid slice.cleared := ⟨valid.allocated, Nat.zero_le _⟩

theorem Separate.append (separate : Separate m) (spare : Nat) (x : Int) :
    Separate (m.Append spare x) := by
  obtain ⟨valid, -, apart⟩ := beside_append spare [x] separate.buffered
    separate.flushed separate.apart
  exact ⟨valid, append_valid 0 spare [x] separate.buffered, apart⟩

theorem Separate.flush (separate : Separate m) (spare : Nat) : Separate (m.Flush spare) := by
  obtain ⟨valid, -, apart⟩ := beside_append spare (m.heap.values m.buffered)
    separate.flushed separate.buffered separate.apart.symm
  exact ⟨append_valid 0 spare _ separate.flushed, cleared_valid valid, apart.symm⟩

theorem separate_step {m' : Memory} {event : Event} (separate : Separate m)
    (taken : Step m event m') : Separate m' := by
  cases taken with
  | append x spare => exact separate.append spare x
  | flush spare => exact separate.flush spare
  | getLength => exact separate

theorem separate_run {trace : List Event} {admits} (run : Run system admits trace m) :
    Separate m := by
  apply run.invariant (fun _ m => Separate m)
  · rintro m rfl
    exact ⟨⟨by decide, by decide⟩, ⟨by decide, by decide⟩, by decide⟩
  · intro _ _ _ _ _ separate _ taken
    exact separate_step separate taken

end Separation

section Values

variable {m : Memory}

theorem view_append (separate : Separate m) (spare : Nat) (x : Int) :
    (m.Append spare x).view = m.view.Append x := by
  obtain ⟨-, flushed, -⟩ := beside_append spare [x] separate.buffered
    separate.flushed separate.apart
  have buffered := append_values 0 spare [x] separate.buffered
  simp only [Memory.view, Memory.Append, BufferedWriter.Append, flushed, buffered]

theorem view_flush (separate : Separate m) (spare : Nat) :
    (m.Flush spare).view = m.view.Flush := by
  have flushed := append_values 0 spare (m.heap.values m.buffered) separate.flushed
  simp only [Memory.view, Memory.Flush, BufferedWriter.Flush, flushed]
  simp [Heap.values, Slice.cleared]

theorem view_length (separate : Separate m) : m.view.GetLength = m.GetLength := by
  simp only [Memory.view, BufferedWriter.GetLength, Memory.GetLength,
    values_length separate.flushed, values_length separate.buffered]

variable {Client : Type} [DecidableEq Client]

/-- The step of the writer over values that a step over slices amounts to. -/
def shown : Event → List (GoWriter.Event Client)
  | .append x _ => [.append x]
  | .flush _ => [.flush]
  | .getLength length => [.getLength length]

theorem simulates_values :
    Simulation system anyStep (GoWriter.system : Runs.System (World Client) _) shown
      (fun _ m w => w.bw = m.view) where
  starts := by
    rintro m rfl
    exact ⟨⟨GoWriter.NewBufferedWriter, fun _ => .idle⟩, ⟨rfl, fun _ => rfl⟩, rfl⟩
  steps := by
    intro trace m event m' w before _ same _ taken
    have separate := separate_run before
    cases taken with
    | append x spare =>
        refine ⟨_, one _ (.append w x), ?_⟩
        rw [view_append separate, ← same]
    | flush spare =>
        refine ⟨_, one _ (.flush w), ?_⟩
        rw [view_flush separate, ← same]
    | getLength =>
        have returned : GoWriter.Step w (.getLength m.GetLength) w := by
          rw [← view_length separate, ← same]
          exact .getLength w
        exact ⟨w, one _ returned, same⟩

end Values

section Flushed

/-- The flushed slice of an earlier instant, as long as it stays what it was. -/
structure Kept (m m' : Memory) : Prop where
  separate : Separate m'
  allocated : m.flushed.array < m'.heap.arrays.length
  apart : m.flushed.array ≠ m'.buffered.array
  below : m.flushed.array = m'.flushed.array → m.flushed.length ≤ m'.flushed.length
  values : m'.heap.values m.flushed = m.heap.values m.flushed

theorem Kept.step {m m₁ m₂ : Memory} {event : Event} (kept : Kept m m₁)
    (taken : Step m₁ event m₂) : Kept m m₂ := by
  have separate := separate_step kept.separate taken
  cases taken with
  | append x spare =>
      have cells := append_other 0 spare [x] kept.separate.buffered kept.allocated kept.apart
      refine ⟨separate, kept.allocated.trans_le (append_grows 0 spare [x] _ _), ?_, kept.below, ?_⟩
      · rcases append_array 0 spare [x] m₁.heap m₁.buffered with same | fresh
        · exact same ▸ kept.apart
        · simp only [Memory.Append, fresh]
          exact Nat.ne_of_lt kept.allocated
      · rw [← kept.values, Heap.values, Heap.values]
        exact congrArg _ cells
  | flush spare =>
      let moved := m₁.heap.values m₁.buffered
      refine ⟨separate, kept.allocated.trans_le (append_grows 0 spare moved _ _), kept.apart, ?_, ?_⟩
      · intro same
        have length := append_length 0 spare moved m₁.heap m₁.flushed
        rcases append_array 0 spare moved m₁.heap m₁.flushed with old | fresh
        · have below := kept.below (same.trans old)
          exact below.trans (length ▸ Nat.le_add_right _ _)
        · have absurd' : m.flushed.array = m₁.heap.arrays.length := same.trans fresh
          exact absurd absurd' (Nat.ne_of_lt kept.allocated)
      · rw [← kept.values, Heap.values, Heap.values]
        by_cases same : m.flushed.array = m₁.flushed.array
        · rw [same]
          exact append_below 0 spare moved kept.separate.flushed (kept.below same)
        · exact congrArg _ (append_other 0 spare moved kept.separate.flushed kept.allocated same)
  | getLength => exact kept

theorem kept_onward {m m' : Memory} {later : List Event} (separate : Separate m)
    (onward : Run (system.resumed m) anyStep later m') : Kept m m' := by
  induction onward with
  | start found =>
      obtain rfl : _ = m := found
      exact ⟨separate, separate.flushed.allocated, separate.apart, fun _ => Nat.le_refl _, rfl⟩
  | step before taken admitted ih => exact ih.step taken

variable {Client : Type} [DecidableEq Client]

/-- The writer never notices that it reuses its arrays: over slices it runs as over
values. And a `flushed` slice that State has handed out holds what it held for ever. -/
theorem aliasing_unseen {trace : List Event} {m : Memory} (run : Run system anyStep trace m) :
    (∃ w : World Client, Run GoWriter.system anyStep (trace.flatMap shown) w ∧ w.bw = m.view) ∧
      ∀ later m', Run (system.resumed m) anyStep later m' →
        m'.heap.values m.flushed = m.heap.values m.flushed :=
  ⟨simulates_values.run run, fun _ _ onward => (kept_onward (separate_run run) onward).values⟩

theorem aliasing_unseen_reused :
    ∃ w : World Bool, Run GoWriter.system anyStep [.append 2, .flush, .append 1] w ∧
      w.bw = ⟨[1], [2]⟩ := by
  have run := (((Run.start rfl : Run system anyStep [] NewBufferedWriter).step
    (.append _ 1 3) trivial).step (.flush _ 0) trivial).step (.append _ 2 0) trivial
  have unseen : ∃ w : World Bool,
      Run GoWriter.system anyStep [.append 2, .flush, .append 1] w ∧ w.bw = _ :=
    (aliasing_unseen run).1
  obtain ⟨w, specified, same⟩ := unseen
  exact ⟨w, specified, same.trans (by decide)⟩

end Flushed

section Buffered

/-- What becomes of the array in which a buffered slice lies. -/
structure Reuse where
  cells : List Int
  position : Nat
  shared : Bool
  deriving DecidableEq, Repr

/-- The writer appends into the array at its position, goes back to its start with a
Flush, and leaves it for a larger one when it is full. -/
def Reuse.after (reuse : Reuse) : Event → Reuse
  | .append x _ =>
      if reuse.position < reuse.cells.length then
        { reuse with cells := reuse.cells.set reuse.position x, position := reuse.position + 1 }
      else { reuse with shared := false }
  | .flush _ => { reuse with position := 0 }
  | .getLength _ => reuse

/-- The array of the buffered slice after the `later` events, newest first. -/
def reused (m : Memory) : List Event → Reuse
  | [] => ⟨m.heap.cells m.buffered.array, m.buffered.length, true⟩
  | event :: later =>
      let reuse := reused m later
      if reuse.shared then reuse.after event else reuse

structure Tracks (m m' : Memory) (reuse : Reuse) : Prop where
  separate : Separate m'
  allocated : m.buffered.array < m'.heap.arrays.length
  cells : m'.heap.cells m.buffered.array = reuse.cells
  apart : m.buffered.array ≠ m'.flushed.array
  shared : reuse.shared = true →
    m'.buffered.array = m.buffered.array ∧ m'.buffered.length = reuse.position
  left : reuse.shared = false → m.buffered.array ≠ m'.buffered.array

theorem Tracks.flush {m m' : Memory} {reuse : Reuse} (tracks : Tracks m m' reuse)
    (spare : Nat) : Tracks m (m'.Flush spare) (if reuse.shared then reuse.after (.flush spare)
      else reuse) := by
  let moved := m'.heap.values m'.buffered
  have separate := tracks.separate.flush spare
  have allocated := tracks.allocated.trans_le (append_grows 0 spare moved m'.heap m'.flushed)
  have cells : (m'.Flush spare).heap.cells m.buffered.array = reuse.cells :=
    (append_other 0 spare moved tracks.separate.flushed tracks.allocated tracks.apart).trans
      tracks.cells
  have apart : m.buffered.array ≠ (m'.Flush spare).flushed.array := by
    rcases append_array 0 spare moved m'.heap m'.flushed with same | fresh
    · exact fun equal => tracks.apart (equal.trans same)
    · exact fun equal => Nat.ne_of_lt tracks.allocated (equal.trans fresh)
  cases shared : reuse.shared with
  | true =>
      obtain ⟨array, -⟩ := tracks.shared shared
      exact ⟨separate, allocated, cells, apart, fun _ => ⟨array, rfl⟩,
        fun left => by rw [if_pos rfl] at left; exact absurd left (by simp [Reuse.after, shared])⟩
  | false =>
      exact ⟨separate, allocated, cells, apart, fun still => by simp [shared] at still,
        fun _ => tracks.left shared⟩

theorem Tracks.append {m m' : Memory} {reuse : Reuse} (tracks : Tracks m m' reuse) (x : Int)
    (spare : Nat) : Tracks m (m'.Append spare x) (if reuse.shared then reuse.after (.append x spare)
      else reuse) := by
  have separate := tracks.separate.append spare x
  have allocated := tracks.allocated.trans_le (append_grows 0 spare [x] m'.heap m'.buffered)
  cases shared : reuse.shared with
  | true =>
      obtain ⟨array, position⟩ := tracks.shared shared
      have capacity : (m'.heap.cells m'.buffered.array).length = reuse.cells.length := by
        rw [array, tracks.cells]
      rcases append_cases 0 spare [x] m'.heap m'.buffered with ⟨fits, same⟩ | ⟨full, same⟩
      · have inside : reuse.position < reuse.cells.length := by
          rw [← position, ← capacity]
          exact fits
        have after : reuse.after (.append x spare) =
            { reuse with
              cells := reuse.cells.set reuse.position x
              position := reuse.position + 1 } := if_pos inside
        rw [if_pos rfl, after]
        refine ⟨separate, allocated, ?_, tracks.apart, ?_, ?_⟩
        · simp only [Memory.Append, same]
          rw [cells_set _ _ tracks.separate.buffered.allocated, if_pos array.symm, array,
            tracks.cells, position, overwrite_one _ _ _ inside]
        · intro _
          simp only [Memory.Append, same]
          exact ⟨array, congrArg (· + 1) position⟩
        · intro left
          rw [shared] at left
          cases left
      · have outside : ¬ reuse.position < reuse.cells.length := by
          rw [← position, ← capacity]
          exact Nat.not_lt.mpr (Nat.le_of_lt_succ full)
        have after : reuse.after (.append x spare) = { reuse with shared := false } :=
          if_neg outside
        rw [if_pos rfl, after]
        refine ⟨separate, allocated, ?_, tracks.apart, fun still => Bool.noConfusion still, ?_⟩
        · simp only [Memory.Append, same]
          rw [cells_old _ _ tracks.allocated, tracks.cells]
        · intro _
          simp only [Memory.Append, same]
          exact Nat.ne_of_lt tracks.allocated
  | false =>
      have left := tracks.left shared
      refine ⟨separate, allocated, ?_, tracks.apart, fun still => by simp [shared] at still, ?_⟩
      · exact (append_other 0 spare [x] tracks.separate.buffered tracks.allocated left).trans
          tracks.cells
      · intro _
        rcases append_array 0 spare [x] m'.heap m'.buffered with same | fresh
        · exact fun equal => left (equal.trans same)
        · exact fun equal => Nat.ne_of_lt tracks.allocated (equal.trans fresh)

theorem tracks_onward {m m' : Memory} {later : List Event} (separate : Separate m)
    (onward : Run (system.resumed m) anyStep later m') : Tracks m m' (reused m later) := by
  induction onward with
  | start found =>
      obtain rfl : _ = m := found
      exact ⟨separate, separate.buffered.allocated, rfl, separate.apart.symm, fun _ => ⟨rfl, rfl⟩,
        fun left => by cases left⟩
  | step before taken admitted ih =>
      cases taken with
      | append x spare => exact ih.append x spare
      | flush spare => exact ih.flush spare
      | getLength =>
          unfold reused
          simp only [Reuse.after, ite_self]
          exact ih

def Event.isFlush : Event → Bool
  | .flush _ => true
  | _ => false

/-- No Append comes after a Flush among the `later` events, newest first. -/
def calm : List Event → Bool
  | [] => true
  | .append _ _ :: later => !later.any Event.isFlush && calm later
  | _ :: later => calm later

/-- Without a Flush the writer only appends behind the slice, and calmly it appends no more
once it has flushed. -/
theorem reused_calm (m : Memory) (later : List Event) (quiet : calm later = true) :
    (reused m later).cells.take m.buffered.length = m.heap.values m.buffered ∧
      (later.any Event.isFlush = false → m.buffered.length ≤ (reused m later).position) := by
  induction later with
  | nil => exact ⟨rfl, fun _ => Nat.le_refl _⟩
  | cons event later ih =>
      cases event with
      | append x spare =>
          simp only [calm, Bool.and_eq_true, Bool.not_eq_true'] at quiet
          obtain ⟨kept, behind⟩ := ih quiet.2
          have past := behind quiet.1
          simp only [reused, Reuse.after]
          split
          · split
            · refine ⟨?_, fun _ => past.trans (Nat.le_succ _)⟩
              rw [List.take_set_of_le past]
              exact kept
            · exact ⟨kept, fun _ => past⟩
          · exact ⟨kept, fun _ => past⟩
      | flush spare =>
          obtain ⟨kept, -⟩ := ih quiet
          refine ⟨?_, fun none => by simp [Event.isFlush] at none⟩
          simp only [reused, Reuse.after]
          split <;> exact kept
      | getLength length =>
          obtain ⟨kept, behind⟩ := ih quiet
          simp only [reused, Reuse.after, ite_self]
          exact ⟨kept, behind⟩

/-- A `buffered` slice that State has handed out holds what the writer has put since into
the array, as long as it uses it. It stays what it was if no Append follows a Flush. -/
theorem buffered_slice_reused {trace later : List Event} {m m' : Memory}
    (run : Run system anyStep trace m) (onward : Run (system.resumed m) anyStep later m') :
    m'.heap.values m.buffered = (reused m later).cells.take m.buffered.length ∧
      (calm later = true → m'.heap.values m.buffered = m.heap.values m.buffered) := by
  have values : m'.heap.values m.buffered = (reused m later).cells.take m.buffered.length := by
    rw [Heap.values, (tracks_onward (separate_run run) onward).cells]
  exact ⟨values, fun quiet => values.trans (reused_calm m later quiet).1⟩

/-- Where an Append follows a Flush the slice changes under its holder. -/
theorem buffered_slice_reused_changed :
    ∃ m m', Run system anyStep [.append 1 3] m ∧
      Run (system.resumed m) anyStep [.append 2 0, .flush 0] m' ∧
        m.heap.values m.buffered = [1] ∧ m'.heap.values m.buffered = [2] := by
  have run : Run system anyStep [.append 1 3] (NewBufferedWriter.Append 3 1) :=
    (Run.start rfl).step (.append _ 1 3) trivial
  have onward := ((stay system (NewBufferedWriter.Append 3 1)).step
    (.flush _ 0) trivial).step (.append _ 2 0) trivial
  exact ⟨_, _, run, onward, by decide, (buffered_slice_reused run onward).1.trans (by decide)⟩

end Buffered

end FizzbeeMbt.GoWriter.Aliasing
