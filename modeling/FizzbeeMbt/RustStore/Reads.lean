import FizzbeeMbt.RustStore.Layers

/-! What the gets of the Rust store answer, over runs whose stopped flushes lose
nothing. -/

namespace FizzbeeMbt.RustStore

open FizzbeeMbt.Maps FizzbeeMbt.Deltas FizzbeeMbt.Runs

variable {Client Path : Type} [DecidableEq Client] [LinearOrder Path]

/-- A get of one durability level that returned within the run. -/
structure GetCall (level : DurabilityLevel) (trace : Trace Client Path) where
  c : Client
  key : Key
  answer : Except IoError Value
  past : Trace Client Path
  returned : .getReturned c key level answer :: past <:+ trace

def GetCall.began {level : DurabilityLevel} {trace : Trace Client Path}
    (get : GetCall level trace) : Trace Client Path := calledAt get.c get.past

def GetCall.listed {level : DurabilityLevel} {trace : Trace Client Path}
    (get : GetCall level trace) : Trace Client Path := listedAt get.c get.past

def GetCall.ended {level : DurabilityLevel} {trace : Trace Client Path}
    (get : GetCall level trace) : Trace Client Path :=
  .getReturned get.c get.key level get.answer :: get.past

omit [LinearOrder Path] in
theorem marks_of_other (c : Client) (event : Event Client Path) (differ : c ≠ actor event) :
    isCalledBy c event = false ∧ isListedBy c event = false := by
  cases event <;> simp_all [actor, isCalledBy, isListedBy, eq_comm]

/-- The objects only ever gain a segment under a fresh name. -/
theorem step_objects {trace : Trace Client Path} {s s' : State Client Path}
    {event : Event Client Path} (layers : Layers trace s) (taken : Step s event s') :
    s'.objects = s.objects ∨ ∃ filename content, filename ∉ s.objects.keys ∧
      s'.objects = s.objects.insert filename content := by
  cases taken with
  | landed c putting =>
      obtain ⟨-, below⟩ := layers.putting c _ _ putting
      exact Or.inr ⟨_, _, fun member => lt_irrefl _ (below _ member), rfl⟩
  | _ => exact Or.inl rfl

/-- The segments still to be read answer as the whole listing did. -/
structure Reading (trace : Trace Client Path) (s : State Client Path) (c : Client) (key : Key)
    (remaining : List Path) : Prop where
  present : ∀ path ∈ remaining, path ∈ s.objects.keys
  answers : scan (remaining.map (segmentTable s.objects)) key =
    latest (writes (durableAt (listedAt c trace))) key
  called : calledAt c trace <:+ listedAt c trace

theorem reading_beside {trace : Trace Client Path} {s s' : State Client Path}
    {event : Event Client Path} (layers : Layers trace s) {c : Client} {key : Key}
    {remaining : List Path} (reading : Reading trace s c key remaining)
    (taken : Step s event s') (unlisted : isListedBy c event = false)
    (uncalled : isCalledBy c event = false) : Reading (event :: trace) s' c key remaining := by
  have listed : listedAt c (event :: trace) = listedAt c trace := before_miss _ _ _ unlisted
  have called : calledAt c (event :: trace) = calledAt c trace := before_miss _ _ _ uncalled
  constructor
  · intro path member
    rcases step_objects layers taken with same | ⟨filename, content, fresh, inserted⟩
    · rw [same]
      exact reading.present path member
    · rw [inserted, keys_insert_fresh _ _ _ fresh]
      exact List.mem_cons_of_mem _ (reading.present path member)
  · rw [listed, ← reading.answers]
    rcases step_objects layers taken with same | ⟨filename, content, fresh, inserted⟩
    · rw [same]
    · rw [inserted, segmentTable_insert _ _ _ fresh _ reading.present]
  · rw [listed, called]
    exact reading.called

def Reads (trace : Trace Client Path) (s : State Client Path) : Prop :=
  ∀ c key level remaining, s.thread c = .getReading key level remaining →
    Reading trace s c key remaining

theorem reads_step {trace : Trace Client Path} {s s' : State Client Path}
    {event : Event Client Path} (layers : Layers trace s) (reads : Reads trace s)
    (taken : Step s event s') : Reads (event :: trace) s' := by
  intro c key level remaining at'
  by_cases acts : c = actor event
  · subst acts
    cases taken with
    | listed c listing at_list lists =>
        simp only [actor, move_thread_self, Thread.getReading.injEq] at at'
        obtain ⟨rfl, rfl, rfl⟩ := at'
        have order := listing_unique s.objects listing layers.descending lists
        have listed : listedAt c (.listed c :: trace) = trace :=
          before_hit _ _ _ (by simp [isListedBy])
        constructor
        · intro path member
          rw [order] at member
          exact member
        · simp only [actor]
          rw [listed, order]
          exact layers.segments _
        · simp only [actor]
          rw [listed, calledAt, before_miss _ _ _ rfl]
          exact before_suffix _ trace
    | @segmentPassed c key level path rest reading passed =>
        simp only [actor, move_thread_self, Thread.getReading.injEq] at at'
        obtain ⟨rfl, rfl, rfl⟩ := at'
        have before := reads c _ _ _ reading
        have missed : segmentTable s.objects path key = none := by
          rw [look_in_segment_fetch] at passed
          exact Option.map_eq_none_iff.mp passed
        have answers := before.answers
        rw [List.map_cons, scan, missed, Option.none_or] at answers
        exact ⟨fun p member => before.present p (List.mem_cons_of_mem _ member), answers,
          before.called⟩
    | _ => simp_all [actor, State.move, State.openGate]
  · rw [step_thread_other taken c acts] at at'
    obtain ⟨uncalled, unlisted⟩ := marks_of_other c event acts
    exact reading_beside layers (reads c _ _ _ at') taken unlisted uncalled

theorem reads_run {trace : Trace Client Path} {s : State Client Path}
    (run : Run system losslessStop trace s) : Reads trace s := by
  apply run.invariant (fun trace s => Reads trace s)
  · intro s start c key level remaining at'
    subst start
    cases at'
  · intro _ _ _ _ before reads _ taken
    exact reads_step (layers_run before) reads taken

/-- A get that returns from its loop answers for the segments it listed. -/
theorem reading_answer {trace : Trace Client Path} {s : State Client Path} {c : Client}
    {key : Key} {path : Path} {rest : List Path} {answer : Except IoError Value}
    (reading : Reading trace s c key (path :: rest))
    (answered : look_in_segment (fetch s.objects path) key = some answer) :
    answer = .ok (latest (writes (durableAt (listedAt c trace))) key).join := by
  rw [look_in_segment_fetch] at answered
  obtain ⟨value, found, rfl⟩ := Option.map_eq_some_iff.mp answered
  rw [← reading.answers, List.map_cons, scan, found]
  rfl

theorem ended_answer {trace : Trace Client Path} {s : State Client Path} {c : Client}
    {key : Key} (reading : Reading trace s c key []) :
    (.ok none : Except IoError Value) =
      .ok (latest (writes (durableAt (listedAt c trace))) key).join := by
  rw [← reading.answers]
  rfl

end FizzbeeMbt.RustStore
