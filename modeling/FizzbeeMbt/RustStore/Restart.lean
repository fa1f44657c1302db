import FizzbeeMbt.RustStore.Losses
import Mathlib.Order.Lattice

/-! Rust stores opened one after the other on one object store, each when the process of
the one before has died. -/

namespace FizzbeeMbt.RustStore

open FizzbeeMbt.Maps FizzbeeMbt.Deltas FizzbeeMbt.Runs

variable {Client Path : Type} [DecidableEq Client] [LinearOrder Path]

/-- What `new` opens on the objects that a store leaves. The names that it draws come after
theirs. -/
def State.reopened (s : State Client Path) : State Client Path :=
  ⟨.new, s.objects, s.objects.keys.max?, none, fun _ => .idle⟩

/-- The process may die at any moment, `none`, and a new store is opened. -/
inductive RestartStep :
    State Client Path → Option (Event Client Path) → State Client Path → Prop
  | step {s s' : State Client Path} {event : Event Client Path} (taken : Step s event s') :
      RestartStep s (some event) s'
  | restarted {s : State Client Path} : RestartStep s none s.reopened

def restartSystem : System (State Client Path) (Option (Event Client Path)) where
  start := fun s => s = initial
  step := RestartStep

/-- A restart empties the buffers and loses what is on its way. -/
def Ledger.restart (ledger : Ledger Path) : Ledger Path := ⟨[], [], [], ledger.landed⟩

def ledgerAcross : List (Option (Event Client Path)) → Ledger Path
  | [] => ⟨[], [], [], []⟩
  | none :: trace => (ledgerAcross trace).restart
  | some event :: trace => (ledgerAcross trace).record event

def sinceRestart : List (Option (Event Client Path)) → Trace Client Path
  | [] => []
  | none :: _ => []
  | some event :: trace => event :: sinceRestart trace

/-- The writes that had landed at the last restart. -/
def inherited : List (Option (Event Client Path)) → History Key RawValue
  | [] => []
  | none :: trace => (ledgerAcross trace).durable
  | some _ :: trace => inherited trace

section Rewriting

/-- A store at rest that holds the segments and nothing else. -/
def holding (landed : List (Path × History Key RawValue)) : State Client Path :=
  ⟨.new, objectsOf landed, (landed.map Prod.fst).head?, none, fun _ => .idle⟩

/-- The event that makes a write. -/
def rewriteBy (c : Client) : Key × Value → Event Client Path
  | (key, some value) => .put c key value
  | (key, none) => .delete c key

/-- Making the writes of a segment anew, and flushing them. -/
def rewriteSegment (c : Client) (segment : Path × History Key RawValue) : Trace Client Path :=
  [.flushReturned c, .landed c segment.1, .taken c, .frozen c, .gateTaken c, .flushCalled c] ++
    segment.2.map (rewriteBy c)

/-- A run that leaves the segments and nothing else. -/
def rewriteAll (c : Client) (landed : List (Path × History Key RawValue)) : Trace Client Path :=
  landed.flatMap (rewriteSegment c)

theorem rewritten_puts {c : Client} {trace : Trace Client Path} {s : State Client Path}
    (run : Run system faultFree trace s) (idle : s.thread c = .idle) (empty : s.store.buf = ∅)
    (h : History Key RawValue) :
    Run system faultFree (h.map (rewriteBy c) ++ trace)
      { s with store := { s.store with buf := contentOf h } } := by
  induction h with
  | nil =>
      have same : s.store = { s.store with buf := contentOf [] } := by
        rw [show contentOf ([] : History Key RawValue) = ∅ from rfl, ← empty]
      rw [← same]
      exact run
  | cons write h ih =>
      obtain ⟨key, value⟩ := write
      rw [contentOf_cons]
      cases value with
      | some value => exact ih.step (.put c key value idle) ⟨rfl, rfl⟩
      | none => exact ih.step (.delete c key idle) ⟨rfl, rfl⟩

theorem freeze_filled {content : Map Key Value} (filled : content.isEmpty = false) :
    (⟨content, ∅⟩ : EmbeddedKvStore).freeze_internal = (true, ⟨∅, content⟩) := by
  simp only [EmbeddedKvStore.freeze_internal, filled]
  rfl

theorem take_filled {content : Map Key Value} (filled : content.isEmpty = false) :
    (⟨∅, content⟩ : EmbeddedKvStore).take_immutable = some (content, .new) := by
  simp [EmbeddedKvStore.take_immutable, filled, EmbeddedKvStore.new]

theorem rewritten_segment {c : Client} {trace : Trace Client Path}
    {landed : List (Path × History Key RawValue)} {segment : Path × History Key RawValue}
    (segments : Segments (segment :: landed))
    (run : Run system faultFree trace (holding landed)) :
    Run system faultFree (rewriteSegment c segment ++ trace) (holding (segment :: landed)) := by
  obtain ⟨newest, -⟩ := List.pairwise_cons.mp segments.descending
  have filled : (contentOf segment.2).isEmpty = false := by
    rw [← Bool.not_eq_true, contentOf_isEmpty]
    exact segments.filled segment List.mem_cons_self
  have frozen := freeze_filled filled
  have taking : (EmbeddedKvStore.freeze_internal ⟨contentOf segment.2, ∅⟩).2.take_immutable =
      some (contentOf segment.2, .new) := by
    rw [frozen]
    exact take_filled filled
  have increasing : ∀ last ∈ (landed.map Prod.fst).head?, last < segment.1 := by
    intro last found
    exact newest last (List.mem_of_mem_head? found)
  have called := (rewritten_puts (c := c) run rfl rfl segment.2).step
    (.flushCalled c rfl) ⟨rfl, rfl⟩
  have gated := called.step (.gateTaken c (move_thread_self _ _ _) rfl) ⟨rfl, rfl⟩
  have froze := gated.step (.frozen c (move_thread_self _ _ _) (congrArg Prod.fst frozen))
    ⟨rfl, rfl⟩
  have took := froze.step (.taken c segment.1 (move_thread_self _ _ _) taking increasing)
    ⟨rfl, rfl⟩
  have landed := took.step (.landed c (move_thread_self _ _ _)) ⟨rfl, rfl⟩
  have returned := landed.step (.flushReturned c (move_thread_self _ _ _)) ⟨rfl, rfl⟩
  have threads : Function.update (fun _ => Thread.idle : Client → Thread Path) c .idle =
      fun _ => .idle := Function.update_eq_self c _
  convert returned using 1
  · simp [rewriteSegment]
  · simp only [State.move, State.openGate, Function.update_idem, holding]
    rw [threads]
    rfl

theorem rewritten_all (c : Client) {landed : List (Path × History Key RawValue)}
    (segments : Segments landed) :
    Run system faultFree (rewriteAll c landed) (holding landed) := by
  induction landed with
  | nil => exact .start rfl
  | cons segment landed ih =>
      apply rewritten_segment segments
      apply ih
      exact ⟨(List.pairwise_cons.mp segments.descending).2,
        fun older member => segments.filled older (List.mem_cons_of_mem _ member)⟩

omit [DecidableEq Client] [LinearOrder Path] in
theorem ledgerOf_rewritten (c : Client) (trace : Trace Client Path)
    (empty : (ledgerOf trace).buffered = []) (h : History Key RawValue) :
    ledgerOf (h.map (rewriteBy c) ++ trace) = { ledgerOf trace with buffered := h } := by
  induction h with
  | nil =>
      show ledgerOf trace = { ledgerOf trace with buffered := [] }
      rw [← empty]
  | cons write h ih =>
      obtain ⟨key, value⟩ := write
      rw [List.map_cons, List.cons_append, ledgerOf, ih]
      cases value <;> rfl

omit [DecidableEq Client] [LinearOrder Path] in
theorem ledgerOf_rewriteAll (c : Client) (landed : List (Path × History Key RawValue)) :
    ledgerOf (rewriteAll c landed) = ⟨[], [], [], landed⟩ := by
  induction landed with
  | nil => rfl
  | cons segment landed ih =>
      have rewritten := ledgerOf_rewritten c (rewriteAll c landed) (by rw [ih]) segment.2
      rw [ih] at rewritten
      simp only [rewriteAll, List.flatMap_cons, rewriteSegment, List.cons_append,
        List.nil_append, ledgerOf] at rewritten ⊢
      rw [rewritten]
      rfl

omit [DecidableEq Client] [LinearOrder Path] in
theorem writes_rewriteAll (c : Client) (landed : List (Path × History Key RawValue)) :
    writes (rewriteAll c landed) = (landed.map Prod.snd).flatten := by
  have written (h : History Key RawValue) :
      writes (h.map (rewriteBy c) : Trace Client Path) = h := by
    rw [writes, List.filterMap_map]
    convert List.filterMap_some with write
    obtain ⟨key, value⟩ := write
    cases value <;> rfl
  induction landed with
  | nil => rfl
  | cons segment landed ih =>
      have flushed : writes (rewriteSegment c segment) = writes (segment.2.map (rewriteBy c)) :=
        rfl
      rw [List.map_cons, List.flatten_cons, ← ih, rewriteAll, List.flatMap_cons, writes,
        List.filterMap_append, ← writes, flushed, written]
      rfl

end Rewriting

omit [DecidableEq Client] in
/-- A store opened anew is one to which the writes that had landed were made and flushed. -/
theorem Booked.reopened {ledger : Ledger Path} {s : State Client Path}
    (booked : Booked ledger s) : s.reopened = holding ledger.landed := by
  have newest : s.objects.keys.max? = (ledger.landed.map Prod.fst).head? := by
    rw [booked.objects, keys_objectsOf booked.segments.descending]
    apply List.max?_eq_head?
    exact booked.segments.descending.imp fun above => max_eq_left (le_of_lt above)
  rw [State.reopened, newest, booked.objects]
  rfl

omit [LinearOrder Path] in
theorem durable_sublist (ledger : Ledger Path) : ledger.restart.kept.Sublist ledger.kept :=
  List.sublist_append_of_sublist_right (List.sublist_append_of_sublist_right
    (List.sublist_append_right ledger.carried ledger.durable))

/-- The process may die at any moment, any number of times, with a flush on its way or not:
the store opened on the objects left continues a faultless run of a fresh store to which
just the writes that had landed were made. -/
theorem restarts_keep_landed [Nonempty Client] {trace : List (Option (Event Client Path))}
    {s : State Client Path} (run : Run restartSystem anyStep trace s) :
    (ledgerAcross trace).kept.Sublist (writes (trace.filterMap id)) ∧
      ∃ earlier, (∃ s₀, Run system faultFree earlier s₀) ∧ writes earlier = inherited trace ∧
        Run system anyStep (sinceRestart trace ++ earlier) s ∧
        ledgerOf (sinceRestart trace ++ earlier) = ledgerAcross trace := by
  induction run with
  | start found =>
      obtain rfl : _ = initial := found
      exact ⟨List.Sublist.refl _, [], ⟨_, .start rfl⟩, rfl, .start rfl, rfl⟩
  | step before taken admitted ih =>
      obtain ⟨kept, earlier, faultless, written, onward, same⟩ := ih
      have booked := booked_run onward
      rw [same] at booked
      cases taken with
      | step taken =>
          refine ⟨?_, earlier, faultless, written, onward.step taken trivial, ?_⟩
          · exact kept_later kept booked (gate_run onward) taken
          · rw [sinceRestart, List.cons_append, ledgerOf, same]
            rfl
      | restarted =>
          obtain ⟨c⟩ := ‹Nonempty Client›
          have rewritten := rewritten_all c booked.segments
          refine ⟨?_, rewriteAll c (ledgerAcross _).landed, ⟨_, rewritten⟩,
            writes_rewriteAll c _, ?_, ledgerOf_rewriteAll c _⟩
          · exact (durable_sublist _).trans kept
          · rw [booked.reopened]
            exact rewritten.refine fun _ _ _ _ _ _ _ => trivial

/-- One segment has landed and another is on its way when the process dies. -/
def diedPutting : List (Option (Event Unit Nat)) :=
  [none, some (.taken ()), some (.frozen ()), some (.gateTaken ()), some (.flushCalled ()),
    some (.put () "k" [2]), some (.flushReturned ()), some (.landed () 1), some (.taken ()),
    some (.frozen ()), some (.gateTaken ()), some (.flushCalled ()), some (.put () "k" [1])]

theorem restarts_keep_landed_putting :
    (∃ s, Run restartSystem anyStep diedPutting s) ∧
      ∃ (earlier : Trace Unit Nat) (s : State Unit Nat), writes earlier = [("k", some [1])] ∧
        Run system anyStep earlier s ∧
        ledgerOf earlier = ⟨[], [], [], [(1, [("k", some [1])])]⟩ := by
  have start : Run restartSystem anyStep [] (initial : State Unit Nat) := .start rfl
  have first := ((((((start.step (.step (.put () "k" [1] rfl)) trivial).step
    (.step (.flushCalled () rfl)) trivial).step
    (.step (.gateTaken () rfl rfl)) trivial).step
    (.step (.frozen () rfl rfl)) trivial).step
    (.step (.taken () 1 rfl rfl (by decide))) trivial).step
    (.step (.landed () rfl)) trivial).step
    (.step (.flushReturned () rfl)) trivial
  have second := (((first.step (.step (.put () "k" [2] rfl)) trivial).step
    (.step (.flushCalled () rfl)) trivial).step
    (.step (.gateTaken () rfl rfl)) trivial).step
    (.step (.frozen () rfl rfl)) trivial
  have run : ∃ s, Run restartSystem anyStep diedPutting s :=
    ⟨_, (second.step (.step (.taken () 2 rfl rfl (by decide))) trivial).step .restarted trivial⟩
  refine ⟨run, ?_⟩
  obtain ⟨s, run⟩ := run
  obtain ⟨-, earlier, -, written, onward, ledger⟩ := restarts_keep_landed run
  exact ⟨earlier, s, written, onward, ledger⟩

end FizzbeeMbt.RustStore
