import FizzbeeMbt.StoreAdapters.Adapters

/-! The three stores against the model of what they are for: the last put of a key, and
the last one before the last Flush. -/

namespace FizzbeeMbt.StoreAdapters

open FizzbeeMbt.Maps FizzbeeMbt.Deltas FizzbeeMbt.Replay FizzbeeMbt.Runs FizzbeeMbt.Strings

/-- All puts, newest first, and those that a Flush has followed. -/
structure LastPuts where
  puts : History String String
  flushed : History String String

/-- A put of `NOT_FOUND` is a deletion. -/
def written (v : String) : Option String := if v = NOT_FOUND then none else some v

def LastPuts.visible (h : LastPuts) (dirty_read : Bool) : History String String :=
  if dirty_read then h.puts else h.flushed

def reported (found : Option (Option String)) : String := found.join.getD NOT_FOUND

def lastPuts : Machine LastPuts Action Value := fun h action =>
  match action with
  | .put k v => (.None, { h with puts := (k, written v) :: h.puts })
  | .get k dirty_read => (.Str (reported (latest (h.visible dirty_read) k)), h)
  | .flush => (.None, { h with flushed := h.puts })

section Fizz

open FizzbeeMbt.FizzStore

/-- The value the specification stores for a put. -/
def stored (v : Option String) : String := v.getD NOT_FOUND

theorem stored_written (v : String) : stored (written v) = v := by
  unfold stored written
  split
  · next same => exact same.symm
  · rfl

structure FizzHolds (s : Model) (h : LastPuts) : Prop where
  layered : Layered s
  idle : s.flush = .idle
  puts : ∀ k, s._last_put.lookup k = (latest h.puts k).map stored
  files : ∀ k, s.store.scan k (s.writer.next_index - 1) = (latest h.flushed k).map stored

/-- Freezing from an empty `immutable_buf` leaves no put in `buf`. -/
theorem freeze_drained (writer : FizzStore.Writer String String)
    (cold : writer.immutable_buf.isEmpty = true) (k : String) :
    writer.freeze.buf.lookup k = none := by
  unfold FizzStore.Writer.freeze
  cases empty : writer.buf.isEmpty with
  | true => exact (isEmpty_iff _).mp empty k
  | false => simp [cold]

theorem write_buf (writer : FizzStore.Writer String String) (store : Storage String String) :
    (writer.write store).1.buf = writer.buf := by
  unfold FizzStore.Writer.write
  split <;> rfl

theorem flushedModel_idle (s : Model) (idle : s.flush = .idle) :
    flushedModel s = { flushedModel s with flush := .idle } := by
  rw [← idle]
  rfl

/-- Actions performed one at a time are a run of the specification. -/
theorem fizz_run (actions : List Action) {trace : List (Event String String)} {s : Model}
    (run : Run (system NOT_FOUND) anyStep trace s) (idle : s.flush = .idle) :
    ∃ later, Run (system NOT_FOUND) anyStep later (after fizz s actions) := by
  induction actions generalizing trace s with
  | nil => exact ⟨trace, run⟩
  | cons action rest ih =>
      cases action with
      | put k v => exact ih (run.step (.put k v) trivial) idle
      | get k dirty_read => exact ih (run.step (.got k dirty_read) trivial) idle
      | flush =>
          have whole := ((run.step (.freeze idle) trivial).step (.write rfl) trivial).step
            (.clear rfl) trivial
          apply ih (s := flushedModel s) _ idle
          · exact .clear :: .write :: .freeze :: trace
          · rw [flushedModel_idle s idle]
            exact whole

theorem FizzHolds.flushed {s : Model} {h : LastPuts} (holds : FizzHolds s h) :
    FizzHolds (flushedModel s) { h with flushed := h.puts } := by
  have cleared := ((holds.layered.freeze holds.idle).write).clear rfl
  have after : Layered (flushedModel s) := flushedModel_idle s holds.idle ▸ cleared
  refine ⟨after, holds.idle, holds.puts, ?_⟩
  intro k
  have last := after.last k
  have drained : (flushedModel s).writer.buf.lookup k = none := by
    simp only [flushedModel, FizzStore.Writer.clear, write_buf]
    exact freeze_drained s.writer (holds.layered.cold holds.idle) k
  rw [drained, Option.none_or] at last
  exact last.symm.trans (holds.puts k)

theorem reported_eq (found : Option (Option String)) :
    reported found = (found.map stored).getD NOT_FOUND := by
  rcases found with _ | _ | v <;> rfl

/-- The specification answers every action like the last puts. -/
theorem fizz_simulates : Simulates fizz lastPuts id FizzHolds where
  answer s h action holds := by
    cases action with
    | put k v => rfl
    | flush => rfl
    | get k dirty_read =>
        simp only [fizz, lastPuts, id_eq, Value.Str.injEq, reported_eq]
        cases dirty_read with
        | true =>
            rw [get_dirty, ← holds.layered.last k, holds.puts k]
            rfl
        | false =>
            simp only [FizzStore.Writer.get, Bool.false_eq_true, if_false, holds.files k]
            rfl
  next s h action holds := by
    cases action with
    | put k v =>
        refine ⟨holds.layered.put k v, holds.idle, ?_, holds.files⟩
        intro k'
        simp only [fizz, lastPuts, lookup_insert_if, latest_cons]
        by_cases same : k' = k
        · simp [same, stored_written]
        · rw [if_neg same, if_neg same]
          exact holds.puts k'
    | get k dirty_read => exact holds
    | flush => exact holds.flushed

end Fizz

section Go

open FizzbeeMbt.GoStore

def goWrites (h : History String String) : History Bytes Bytes :=
  h.map fun write => (utf8 write.1, write.2.map utf8)

def GoHolds (a : GoAdapter) (h : LastPuts) : Prop :=
  ∃ ops, a = session emptyBucket ops ∧ opWrites ops = goWrites h.puts ∧
    persisted ops = goWrites h.flushed

theorem goWrites_valid (h : History String String) :
    ∀ write ∈ goWrites h, Utf8Valid write.1 := by
  intro write member
  obtain ⟨write, -, rfl⟩ := List.mem_map.mp member
  exact utf8Valid_utf8 write.1

theorem getResult_answerOf (h : History String String) (k : String) :
    getResult (answerOf (latest (goWrites h) (utf8 k))) =
      .ok (.string (utf8 (reported (latest h k)))) := by
  rw [goWrites, latest_map utf8 utf8_injective]
  rcases latest h k with _ | _ | v <;> rfl

theorem flush_ok (kv : KVStore) (bucket : Bucket) : (kv.Flush bucket false).1 = .ok () := by
  unfold KVStore.Flush
  split <;> rfl

theorem actionFlush_eq (a : GoAdapter) : ActionFlush a = (.ok .nil, (a.1.Flush a.2 false).2) := by
  unfold ActionFlush
  have done := flush_ok a.1 a.2
  generalize a.1.Flush a.2 false = result at done
  obtain ⟨_, next⟩ := result
  obtain rfl : _ = Except.ok () := done
  rfl

theorem actionPut_eq (a : GoAdapter) (k v : String) :
    ActionPut a [.of (.Str k), .of (.Str v)] =
      (.ok .nil, Op.apply a
        (match written v with
          | none => .delete (utf8 k)
          | some v => .put (utf8 k) (utf8 v))) := by
  have same : utf8 v = utf8 "NOT_FOUND" ↔ v = NOT_FOUND := utf8_injective.eq_iff
  simp only [ActionPut, stringArg, GoValue.of, List.getElem?_cons_zero, List.getElem?_cons_succ,
    same, written]
  split <;> rfl

theorem actionGet_eq (a : GoAdapter) (k : String) (dirty_read : Bool) :
    ActionGet a [.of (.Str k), .of (.Bool dirty_read)] =
      (getResult (a.1.Get a.2.ReadAll (utf8 k)
        (some ⟨if dirty_read then .DurabilityMemory else .DurabilityRemote⟩)), a) := by
  cases dirty_read <;> rfl

/-- The Go adapter answers every action like the last puts. -/
theorem go_simulates : Simulates go lastPuts (fun v => .ok (.of v)) GoHolds where
  answer a h action holds := by
    obtain ⟨ops, rfl, puts, flushed⟩ := holds
    cases action with
    | put k v =>
        simp only [go, actionPut_eq, lastPuts]
        rfl
    | flush =>
        simp only [go, actionFlush_eq, lastPuts]
        rfl
    | get k dirty_read =>
        simp only [go, actionGet_eq, lastPuts]
        rw [GoValue.of, session_get emptyBucket ops (puts ▸ goWrites_valid h.puts), ← getResult_answerOf]
        cases dirty_read with
        | true => exact congrArg (fun w => getResult (answerOf (latest w (utf8 k)))) puts
        | false => exact congrArg (fun w => getResult (answerOf (latest w (utf8 k)))) flushed
  next a h action holds := by
    obtain ⟨ops, rfl, puts, flushed⟩ := holds
    cases action with
    | put k v =>
        simp only [go, actionPut_eq, lastPuts]
        cases written v with
        | none => exact ⟨.delete (utf8 k) :: ops, rfl, congrArg (List.cons _) puts, flushed⟩
        | some v =>
            exact ⟨.put (utf8 k) (utf8 v) :: ops, rfl, congrArg (List.cons _) puts, flushed⟩
    | flush =>
        simp only [go, actionFlush_eq, lastPuts]
        exact ⟨.flush :: ops, rfl, puts, puts⟩
    | get k dirty_read =>
        simp only [go, actionGet_eq, lastPuts]
        exact ⟨ops, rfl, puts, flushed⟩

end Go

section Rust

open FizzbeeMbt.RustStore

variable {Path : Type} [LinearOrder Path] (names : Nat → Path)
  (list : ObjectStore Path → List Path)

def rustWrites (h : History String String) : History Key RawValue :=
  h.map fun write => (write.1, write.2.map utf8)

def RustHolds (a : Session Path) (h : LastPuts) : Prop :=
  ∃ ops, a = session names ops ∧ opWrites ops = rustWrites h.puts ∧
    persisted ops = rustWrites h.flushed

theorem action_put_eq (a : Session Path) (k v : String) :
    action_put names a [.Str k, .Str v] =
      (.ok .None, a.apply names
        (match written v with
          | none => .delete k
          | some v => .put k (utf8 v))) := by
  by_cases same : v = NOT_FOUND
  · subst same
    rfl
  · have other : ¬v = "NOT_FOUND" := same
    simp only [action_put, written, same, other, if_false]

theorem action_flush_eq (a : Session Path) :
    action_flush names a = (.ok .None, a.apply names .flush) := by
  unfold action_flush EmbeddedKvStore.flush
  cases a.store.freeze_internal.2.take_immutable <;> rfl

theorem action_get_eq (a : Session Path) (h : History String String) (k : String)
    (dirty_read : Bool)
    (answer : a.store.get (.ok (list a.objects)) (fetch a.objects) k
      (if dirty_read then .Memory else .Remote) = .ok (latest (rustWrites h) k).join) :
    action_get list a [.Str k, .Bool dirty_read] = .ok (.Str (reported (latest h k))) := by
  have mapped : latest (rustWrites h) k = (latest h k).map (Option.map utf8) :=
    latest_map id Function.injective_id utf8 h k
  simp only [action_get, answer, mapped]
  rcases latest h k with _ | _ | v
  · rfl
  · rfl
  · simp [ofUtf8_utf8, reported]

/-- The Rust adapter answers every action like the last puts. -/
theorem rust_simulates (increasing : StrictMono names)
    (ascending : ∀ objects, ListsAscending objects (list objects)) :
    Simulates (rust names list) lastPuts Except.ok (RustHolds names) where
  answer a h action holds := by
    obtain ⟨ops, rfl, puts, flushed⟩ := holds
    cases action with
    | put k v => simp only [rust, action_put_eq, lastPuts]
    | flush => simp only [rust, action_flush_eq, lastPuts]
    | get k dirty_read =>
        simp only [rust, lastPuts]
        apply action_get_eq
        rw [session_get names increasing ops _ (ascending _)]
        cases dirty_read with
        | true => exact congrArg (fun w => Except.ok (latest w k).join) puts
        | false => exact congrArg (fun w => Except.ok (latest w k).join) flushed
  next a h action holds := by
    obtain ⟨ops, rfl, puts, flushed⟩ := holds
    cases action with
    | put k v =>
        simp only [rust, action_put_eq, lastPuts]
        cases written v with
        | none => exact ⟨.delete k :: ops, rfl, congrArg (List.cons _) puts, flushed⟩
        | some v => exact ⟨.put k (utf8 v) :: ops, rfl, congrArg (List.cons _) puts, flushed⟩
    | flush =>
        simp only [rust, action_flush_eq, lastPuts]
        exact ⟨.flush :: ops, rfl, puts, puts⟩
    | get k dirty_read => exact ⟨ops, rfl, puts, flushed⟩

end Rust

/-- Every sequence of actions, each run to its end, gets the same answers from the
specification, from the Go store and from the Rust store, each through its adapter. -/
theorem stores_agree {Path : Type} [LinearOrder Path] (names : Nat → Path)
    (increasing : StrictMono names) (list : RustStore.ObjectStore Path → List Path)
    (ascending : ∀ objects, RustStore.ListsAscending objects (list objects))
    (actions : List Action) :
    replay go goInit actions =
        (replay fizz FizzStore.Init actions).map (fun v => .ok (GoValue.of v)) ∧
      replay (rust names list) rustInit actions =
        (replay fizz FizzStore.Init actions).map Except.ok := by
  have model := fizz_simulates.replay (t := ⟨[], []⟩)
    ⟨FizzStore.layered_init, rfl, fun _ => rfl, fun _ => rfl⟩ actions
  rw [List.map_id] at model
  rw [model]
  constructor
  · exact go_simulates.replay ⟨[], rfl, rfl, rfl⟩ actions
  · exact (rust_simulates names list increasing ascending).replay ⟨[], rfl, rfl, rfl⟩ actions

/-- The listing of an object store that keeps its paths sorted. -/
def sortedListing (objects : RustStore.ObjectStore Nat) : List Nat :=
  objects.keys.insertionSort (· ≤ ·)

theorem sortedListing_ascending (objects : RustStore.ObjectStore Nat) :
    RustStore.ListsAscending objects (sortedListing objects) := by
  have permuted : (sortedListing objects).Perm objects.keys := List.perm_insertionSort _ _
  have sorted : (sortedListing objects).Pairwise (· ≤ ·) := List.pairwise_insertionSort _ _
  have distinct : (sortedListing objects).Nodup := permuted.nodup_iff.mpr objects.keys_nodup
  refine ⟨permuted, (sorted.and distinct).imp ?_⟩
  rintro a b ⟨below, differ⟩
  exact lt_of_le_of_ne below differ

/-- A flushed value and its deletion, read with and without the buffer. -/
def deletionRead : List Action :=
  [.put "k" "v", .flush, .put "k" NOT_FOUND, .get "k" true, .get "k" false]

theorem stores_agree_deletion :
    replay go goInit deletionRead =
        [.ok .nil, .ok .nil, .ok .nil, .ok (.string (utf8 "NOT_FOUND")),
          .ok (.string (utf8 "v"))] ∧
      replay (rust id sortedListing) rustInit deletionRead =
        [.ok .None, .ok .None, .ok .None, .ok (.Str "NOT_FOUND"), .ok (.Str "v")] := by
  obtain ⟨ofGo, ofRust⟩ :=
    stores_agree id strictMono_id sortedListing sortedListing_ascending deletionRead
  have model : replay fizz FizzStore.Init deletionRead =
      [.None, .None, .None, .Str "NOT_FOUND", .Str "v"] := by decide
  rw [model] at ofGo ofRust
  exact ⟨ofGo, ofRust⟩

end FizzbeeMbt.StoreAdapters
