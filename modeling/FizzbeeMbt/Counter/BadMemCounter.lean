import FizzbeeMbt.Lib.Runs
import FizzbeeMbt.Lib.Words
import FizzbeeMbt.Counter.Spec
import Mathlib.Data.Fintype.Card
import Mathlib.Logic.Function.Iterate

/-! `BadMemCounter`, whose load and update are two steps that other calls can come
between: how far that takes the value out of its range. -/

namespace FizzbeeMbt.Counter.BadMemCounter

open FizzbeeMbt.Runs FizzbeeMbt.Words

/-- Where a client is in a call: past the load it no longer compares. -/
inductive Call where
  | idle
  | called (op : Op)
  | updating (op : Op)
  | finished (op : Op) (result : Option Int32)
  deriving DecidableEq, Repr

inductive Event (Client : Type) where
  | call (c : Client) (op : Op)
  | load (c : Client) (op : Op) (current : Int32)
  | updated (c : Client) (op : Op)
  | returned (c : Client) (op : Op) (result : Option Int32)
  deriving DecidableEq, Repr

structure State (Client : Type) where
  value : Int32
  calls : Client → Call

/-- The condition on the value that was loaded. -/
def passes (limit : Int32) : Op → Int32 → Bool
  | .Inc, current => current < limit
  | .Dec, current => 0 < current
  | .Get, _ => false

/-- `fetch_add` and `fetch_sub`, which wrap. -/
def fetch : Op → Int32 → Int32
  | .Inc, value => value + 1
  | .Dec, value => value - 1
  | .Get, value => value

section System

variable {Client : Type} [DecidableEq Client]

def State.at (s : State Client) (c : Client) (call : Call) : State Client :=
  { s with calls := Function.update s.calls c call }

inductive Step (limit : Int32) : State Client → Event Client → State Client → Prop
  | call (s : State Client) (c : Client) (op : Op) (idle : s.calls c = .idle) :
      Step limit s (.call c op) (s.at c (.called op))
  | get (s : State Client) (c : Client) (called : s.calls c = .called .Get) :
      Step limit s (.load c .Get s.value) (s.at c (.finished .Get (some s.value)))
  | passed (s : State Client) (c : Client) {op : Op} (called : s.calls c = .called op)
      (passes : passes limit op s.value = true) :
      Step limit s (.load c op s.value) (s.at c (.updating op))
  | refused (s : State Client) (c : Client) {op : Op} (called : s.calls c = .called op)
      (updates : op ≠ .Get) (fails : passes limit op s.value = false) :
      Step limit s (.load c op s.value) (s.at c (.finished op none))
  | updated (s : State Client) (c : Client) {op : Op} (updating : s.calls c = .updating op) :
      Step limit s (.updated c op) { s.at c (.finished op none) with value := fetch op s.value }
  | returned (s : State Client) (c : Client) {op : Op} {result : Option Int32}
      (finished : s.calls c = .finished op result) :
      Step limit s (.returned c op result) (s.at c .idle)

def counter (limit : Int32) : System (State Client) (Event Client) where
  start s := s.value = 0 ∧ ∀ c, s.calls c = .idle
  step := Step limit

end System

section Pending

variable {Client : Type} [Fintype Client] [DecidableEq Client]

/-- The calls of a method that are between their load and their update. -/
def pending (op : Op) (s : State Client) : Finset Client :=
  Finset.univ.filter fun c => s.calls c = .updating op

def Event.loads : Event Client → Bool
  | .load _ _ _ => true
  | _ => false

/-- At most `m` calls are between their load and their update at a time. -/
def overlapping (m : Nat) (_ : List (Event Client)) (s : State Client) (event : Event Client) :
    Prop :=
  event.loads = true → (pending .Inc s).card + (pending .Dec s).card < m

variable {s : State Client} {c : Client} {op : Op} {call : Call}

omit [DecidableEq Client] in
theorem mem_pending : c ∈ pending op s ↔ s.calls c = .updating op := by
  simp [pending]

/-- What one call contributes to the pending ones. -/
def share (op : Op) (call : Call) : Nat := if call = .updating op then 1 else 0

theorem pending_enter : pending op (s.at c (.updating op)) = insert c (pending op s) := by
  ext d
  rw [Finset.mem_insert, mem_pending, mem_pending]
  by_cases same : d = c
  · simp [State.at, same]
  · simp [State.at, same]

theorem pending_leave (elsewhere : call ≠ .updating op) :
    pending op (s.at c call) = (pending op s).erase c := by
  ext d
  rw [Finset.mem_erase, mem_pending, mem_pending]
  by_cases same : d = c
  · simp [State.at, same, elsewhere]
  · simp [State.at, same]

/-- A move of one call exchanges its share. -/
theorem card_at (op : Op) (s : State Client) (c : Client) (call : Call) :
    (pending op (s.at c call)).card + share op (s.calls c) =
      (pending op s).card + share op call := by
  by_cases enters : call = .updating op
  · subst enters
    rw [pending_enter, share, share, if_pos rfl]
    split_ifs with inside
    · rw [Finset.insert_eq_of_mem (mem_pending.mpr inside)]
    · rw [Finset.card_insert_of_notMem fun member => inside (mem_pending.mp member), Nat.add_zero]
  · rw [pending_leave enters, share, share, if_neg enters, Nat.add_zero]
    split_ifs with inside
    · exact Finset.card_erase_add_one (mem_pending.mpr inside)
    · rw [Finset.erase_eq_of_notMem fun member => inside (mem_pending.mp member), Nat.add_zero]

end Pending

section Bounds

variable {Client : Type} [Fintype Client] [DecidableEq Client] {limit : Int32} {m : Nat}

/-- The value with all pending decrements, or with all pending increments, made. -/
structure Bounded (limit : Int32) (m : Nat) (s : State Client) : Prop where
  low : 1 - (m : Int) + (pending .Dec s).card ≤ s.value.toInt
  high : s.value.toInt + (pending .Inc s).card ≤ limit.toInt + m - 1

/-- A load that passed is at least one update away from either end. -/
theorem bounded_passed {s : State Client} {c : Client} {op : Op} (bounded : Bounded limit m s)
    (called : s.calls c = .called op) (passed : passes limit op s.value = true)
    (room : (pending .Inc s).card + (pending .Dec s).card < m) :
    Bounded limit m (s.at c (.updating op)) := by
  obtain ⟨low, high⟩ := bounded
  have incs := card_at .Inc s c (.updating op)
  have decs := card_at .Dec s c (.updating op)
  have same : (s.at c (.updating op)).value = s.value := rfl
  rw [called] at incs decs
  cases op with
  | Inc =>
      have below : s.value.toInt < limit.toInt :=
        Int32.lt_iff_toInt_lt.mp (of_decide_eq_true passed)
      simp only [share, reduceCtorEq, if_false, if_true, Call.updating.injEq] at incs decs
      constructor
      · rw [same]
        omega
      · rw [same]
        omega
  | Dec =>
      have above : (0 : Int32).toInt < s.value.toInt :=
        Int32.lt_iff_toInt_lt.mp (of_decide_eq_true passed)
      rw [Int32.toInt_zero] at above
      simp only [share, reduceCtorEq, if_false, if_true, Call.updating.injEq] at incs decs
      constructor
      · rw [same]
        omega
      · rw [same]
        omega
  | Get => cases passed

/-- A move that makes no more of a pending update than was pending. -/
theorem Bounded.move {s : State Client} {c : Client} {call : Call} {value : Int32}
    (bounded : Bounded limit m s)
    (low : s.value.toInt + share .Dec call ≤ value.toInt + share .Dec (s.calls c))
    (high : value.toInt + share .Inc call ≤ s.value.toInt + share .Inc (s.calls c)) :
    Bounded limit m { s.at c call with value } := by
  have incs := card_at .Inc s c call
  have decs := card_at .Dec s c call
  constructor
  · have before := bounded.low
    show 1 - (m : Int) + (pending .Dec (s.at c call)).card ≤ value.toInt
    omega
  · have before := bounded.high
    show value.toInt + (pending .Inc (s.at c call)).card ≤ limit.toInt + m - 1
    omega

/-- A move to a call that updates nothing. -/
theorem Bounded.settle {s : State Client} {c : Client} {call : Call}
    (bounded : Bounded limit m s) (settled : ∀ op, call ≠ .updating op) :
    Bounded limit m (s.at c call) := by
  have none : ∀ op, share op call = 0 := fun op => if_neg (settled op)
  have same : s.at c call = { s.at c call with value := s.value } := rfl
  rw [same]
  apply bounded.move
  · rw [none]
    omega
  · rw [none]
    omega

omit [DecidableEq Client] in
theorem pending_pos {s : State Client} {c : Client} {op : Op}
    (updating : s.calls c = .updating op) : 0 < (pending op s).card :=
  Finset.card_pos.mpr ⟨c, mem_pending.mpr updating⟩

/-- A pending update has room in 32 bits. -/
theorem bounded_updated {s : State Client} {c : Client} {op : Op} (bounded : Bounded limit m s)
    (positive : 1 ≤ limit.toInt) (headroom : limit.toInt + m ≤ 2 ^ 31)
    (updating : s.calls c = .updating op) :
    Bounded limit m { s.at c (.finished op none) with value := fetch op s.value } := by
  have member := pending_pos updating
  cases op with
  | Inc =>
      have high := bounded.high
      have moved : (fetch .Inc s.value).toInt = s.value.toInt + 1 :=
        toInt32_succ s.value (by omega)
      apply bounded.move
      · simp only [moved, updating, share, reduceCtorEq, if_false, Call.updating.injEq]
        omega
      · simp only [moved, updating, share, reduceCtorEq, if_false, if_true]
        omega
  | Dec =>
      have low := bounded.low
      have moved : (fetch .Dec s.value).toInt = s.value.toInt - 1 :=
        toInt32_pred s.value (by omega)
      apply bounded.move
      · simp only [moved, updating, share, reduceCtorEq, if_false, if_true]
        omega
      · simp only [moved, updating, share, reduceCtorEq, if_false, Call.updating.injEq]
        omega
  | Get => exact bounded.settle (by simp)

theorem bounded_step {trace : List (Event Client)} {s s' : State Client} {event : Event Client}
    (positive : 1 ≤ limit.toInt) (headroom : limit.toInt + m ≤ 2 ^ 31)
    (bounded : Bounded limit m s) (few : overlapping m trace s event)
    (taken : Step limit s event s') : Bounded limit m s' := by
  cases taken with
  | passed c called passed => exact bounded_passed bounded called passed (few rfl)
  | updated c updating => exact bounded_updated bounded positive headroom updating
  | _ => exact bounded.settle (by simp)

theorem bounded_run (atLeast : 1 ≤ m) (positive : 1 ≤ limit.toInt)
    (headroom : limit.toInt + m ≤ 2 ^ 31) {trace : List (Event Client)} {s : State Client}
    (run : Run (counter limit) (overlapping m) trace s) : Bounded limit m s := by
  refine run.invariant (fun _ s => Bounded limit m s) ?_ ?_
  · rintro s ⟨initial, idle⟩
    have none : ∀ op, pending op s = ∅ := by
      intro op
      ext c
      simp [mem_pending, idle c]
    constructor
    · rw [initial, none, Int32.toInt_zero, Finset.card_empty]
      omega
    · rw [initial, none, Int32.toInt_zero, Finset.card_empty]
      omega
  · intro trace s event s' _ bounded few taken
    exact bounded_step positive headroom bounded few taken

end Bounds

section Volleys

variable {Client : Type} [Fintype Client] [DecidableEq Client] {limit : Int32} {m : Nat}

def Reached (limit : Int32) (m : Nat) (s : State Client) : Prop :=
  ∃ trace, Run (counter limit) (overlapping m) trace s

theorem Reached.step {s s' : State Client} {event : Event Client} (reached : Reached limit m s)
    (taken : Step limit s event s') (few : ∀ trace, overlapping m trace s event) :
    Reached limit m s' := by
  obtain ⟨trace, run⟩ := reached
  exact ⟨event :: trace, run.step taken (few trace)⟩

/-- The calls of the clients in `S` are between their load and their update. -/
def volley (op : Op) (value : Int32) (S : Finset Client) : State Client where
  value
  calls c := if c ∈ S then .updating op else .idle

def resting (value : Int32) : State Client := ⟨value, fun _ => .idle⟩

omit [Fintype Client] in
theorem volley_none (op : Op) (value : Int32) :
    volley op value (∅ : Finset Client) = resting value := by
  simp [volley, resting]

omit [Fintype Client] in
theorem volley_enter (op : Op) (value : Int32) (S : Finset Client) (c : Client) (call : Call) :
    ((volley op value S).at c call).at c (.updating op) = volley op value (insert c S) := by
  simp only [State.at, volley, Function.update_idem, State.mk.injEq, true_and]
  funext d
  by_cases same : d = c
  · simp [same]
  · simp [same]

omit [Fintype Client] in
theorem volley_leave (op : Op) (value value' : Int32) {S : Finset Client} {c : Client}
    (outside : c ∉ S) (call : Call) :
    ({ (volley op value (insert c S)).at c call with value := value' } : State Client).at c .idle =
      volley op value' S := by
  simp only [State.at, volley, Function.update_idem, State.mk.injEq, true_and]
  funext d
  by_cases same : d = c
  · simp [same, outside]
  · simp [same]

theorem pending_volley (op : Op) (value : Int32) (S : Finset Client) :
    (pending .Inc (volley op value S)).card + (pending .Dec (volley op value S)).card ≤ S.card := by
  cases op with
  | Inc => simp [pending, volley, ite_eq_iff]
  | Dec => simp [pending, volley, ite_eq_iff]
  | Get => simp [pending, volley, ite_eq_iff]

/-- Clients that load one after the other see the same value. -/
theorem volley_loads {op : Op} {value : Int32}
    (rests : Reached limit m (resting value : State Client)) (passed : passes limit op value = true) (S : Finset Client) (few : S.card ≤ m) :
    Reached limit m (volley op value S) := by
  induction S using Finset.induction_on with
  | empty =>
      rw [volley_none]
      exact rests
  | insert c S outside ih =>
      rw [Finset.card_insert_of_notMem outside] at few
      have loaded := ih (by omega)
      have idle : (volley op value S).calls c = .idle := if_neg outside
      have called := loaded.step (.call _ c op idle) fun _ loads => by cases loads
      rw [← volley_enter op value S c (.called op)]
      refine called.step (.passed _ c (by simp [State.at]) passed) ?_
      intro _ _
      have incs := card_at .Inc (volley op value S) c (.called op)
      have decs := card_at .Dec (volley op value S) c (.called op)
      have total := pending_volley op value S
      simp only [idle, share, reduceCtorEq, if_false] at incs decs
      omega

theorem volley_updates {op : Op} {value : Int32} (S : Finset Client)
    (loaded : Reached limit m (volley op value S)) :
    Reached limit m (resting ((fetch op)^[S.card] value) : State Client) := by
  induction S using Finset.induction_on generalizing value with
  | empty =>
      rw [volley_none] at loaded
      exact loaded
  | insert c S outside ih =>
      rw [Finset.card_insert_of_notMem outside, Function.iterate_succ_apply]
      apply ih
      have updating : (volley op value (insert c S)).calls c = .updating op :=
        if_pos (Finset.mem_insert_self c S)
      have updated := loaded.step (.updated _ c updating) fun _ loads => by cases loads
      have finished : Call.finished op none =
          ((volley op value (insert c S)).at c (.finished op none)).calls c := by
        simp [State.at]
      rw [← volley_leave op value (fetch op value) outside (.finished op none)]
      exact updated.step (.returned _ c finished.symm) fun _ loads => by cases loads

/-- Clients that load one after the other and then update. -/
theorem Reached.volley {op : Op} {value : Int32}
    (rests : Reached limit m (resting value : State Client))
    (passed : passes limit op value = true) {k : Nat} (few : k ≤ m)
    (enough : m ≤ Fintype.card Client) :
    Reached limit m (resting ((fetch op)^[k] value) : State Client) := by
  obtain ⟨S, -, rfl⟩ : ∃ S ⊆ (Finset.univ : Finset Client), S.card = k :=
    Finset.exists_subset_card_eq (by rw [Finset.card_univ]; omega)
  exact volley_updates S (volley_loads rests passed S few)

theorem fetch_incs (value : Int32) (k : Nat) (room : value.toInt + k < 2 ^ 31) :
    ((fetch .Inc)^[k] value).toInt = value.toInt + k := by
  induction k with
  | zero => simp
  | succ k ih =>
      have before := ih (by omega)
      rw [Function.iterate_succ_apply']
      calc (fetch .Inc ((fetch .Inc)^[k] value)).toInt
          = ((fetch .Inc)^[k] value).toInt + 1 := toInt32_succ _ (by omega)
        _ = value.toInt + (k + 1 : Nat) := by omega

theorem fetch_decs (value : Int32) (k : Nat) (room : -2 ^ 31 ≤ value.toInt - k) :
    ((fetch .Dec)^[k] value).toInt = value.toInt - k := by
  induction k with
  | zero => simp
  | succ k ih =>
      have before := ih (by omega)
      rw [Function.iterate_succ_apply']
      calc (fetch .Dec ((fetch .Dec)^[k] value)).toInt
          = ((fetch .Dec)^[k] value).toInt - 1 := toInt32_pred _ (by omega)
        _ = value.toInt - (k + 1 : Nat) := by omega

/-- One client counts up to any value below the limit. -/
theorem climbs (limit : Int32) (atLeast : 1 ≤ m) (enough : m ≤ Fintype.card Client) (k : Nat)
    (below : k ≤ limit.toInt) :
    ∃ value : Int32, value.toInt = k ∧ Reached limit m (resting value : State Client) := by
  induction k with
  | zero => exact ⟨0, Int32.toInt_zero, [], .start ⟨rfl, fun _ => rfl⟩⟩
  | succ k ih =>
      obtain ⟨value, same, rests⟩ := ih (by omega)
      have passed : passes limit .Inc value = true :=
        decide_eq_true (Int32.lt_iff_toInt_lt.mpr (by omega))
      have small := limit.toInt_lt
      refine ⟨_, ?_, rests.volley passed atLeast enough⟩
      rw [fetch_incs value 1 (by omega)]
      omega

end Volleys

section Range

variable {Client : Type} [Fintype Client] [DecidableEq Client] {limit : Int32} {m : Nat}

/-- Every value from `m - 1` below 0 to `m - 1` above the limit. -/
theorem range_reached (atLeast : 1 ≤ m) (enough : m ≤ Fintype.card Client)
    (positive : 1 ≤ limit.toInt) (headroom : limit.toInt + m ≤ 2 ^ 31) {value : Int}
    (low : 1 - (m : Int) ≤ value) (high : value ≤ limit.toInt + m - 1) :
    ∃ x : Int32, x.toInt = value ∧ Reached limit m (resting x : State Client) := by
  by_cases below : value < 1
  · obtain ⟨k, many⟩ := Int.eq_ofNat_of_zero_le (show 0 ≤ 1 - value by omega)
    obtain ⟨one, same, rests⟩ := climbs limit atLeast enough 1 positive
    have zero : (0 : Int32).toInt = 0 := Int32.toInt_zero
    have passed : passes limit .Dec one = true :=
      decide_eq_true (Int32.lt_iff_toInt_lt.mpr (by omega))
    refine ⟨_, ?_, rests.volley passed (by omega : k ≤ m) enough⟩
    rw [fetch_decs one k (by omega)]
    omega
  · by_cases above : limit.toInt < value
    · obtain ⟨k, many⟩ := Int.eq_ofNat_of_zero_le (show 0 ≤ value - (limit.toInt - 1) by omega)
      obtain ⟨n, full⟩ := Int.eq_ofNat_of_zero_le (show 0 ≤ limit.toInt - 1 by omega)
      obtain ⟨last, same, rests⟩ := climbs limit atLeast enough n (by omega)
      have passed : passes limit .Inc last = true :=
        decide_eq_true (Int32.lt_iff_toInt_lt.mpr (by omega))
      refine ⟨_, ?_, rests.volley passed (by omega : k ≤ m) enough⟩
      rw [fetch_incs last k (by omega)]
      omega
    · obtain ⟨n, exact⟩ := Int.eq_ofNat_of_zero_le (show 0 ≤ value by omega)
      obtain ⟨x, same, rests⟩ := climbs limit atLeast enough n (by omega)
      exact ⟨x, by omega, rests⟩

/-- A call that loads is not pending. -/
theorem overlapping_all {trace : List (Event Client)} {s : State Client}
    (run : Run (counter limit) anyStep trace s) :
    Run (counter limit) (overlapping (Fintype.card Client)) trace s := by
  refine run.refine ?_
  intro trace s event s' _ _ taken loads
  have absent : ∃ c, ∀ op, s.calls c ≠ .updating op := by
    cases taken with
    | get c called => exact ⟨c, fun op updating => by rw [called] at updating; cases updating⟩
    | passed c called passed =>
        exact ⟨c, fun op updating => by rw [called] at updating; cases updating⟩
    | refused c called updates fails =>
        exact ⟨c, fun op updating => by rw [called] at updating; cases updating⟩
    | _ => cases loads
  obtain ⟨c, idle⟩ := absent
  have apart : Disjoint (pending .Inc s) (pending .Dec s) := by
    rw [Finset.disjoint_left]
    intro d incs decs
    have same := (mem_pending.mp incs).symm.trans (mem_pending.mp decs)
    cases same
  rw [← Finset.card_union_of_disjoint apart]
  apply Finset.card_lt_univ_of_notMem (x := c)
  rw [Finset.mem_union, mem_pending, mem_pending]
  rintro (incs | decs)
  · exact idle .Inc incs
  · exact idle .Dec decs

/-- With at most `m` calls between their load and their update at a time, the values that
runs reach are those from `m - 1` below 0 to `m - 1` above the limit; `n` clients can have
all their calls there. -/
theorem bad_mem_counter_range (positive : 1 ≤ limit.toInt)
    (headroom : limit.toInt + Fintype.card Client ≤ 2 ^ 31) (value : Int) :
    (∀ m, 1 ≤ m → m ≤ Fintype.card Client →
      ((∃ trace, ∃ s : State Client, Run (counter limit) (overlapping m) trace s ∧
        s.value.toInt = value) ↔ 1 - (m : Int) ≤ value ∧ value ≤ limit.toInt + m - 1)) ∧
    (1 ≤ Fintype.card Client →
      ((∃ trace, ∃ s : State Client, Run (counter limit) anyStep trace s ∧
        s.value.toInt = value) ↔
        1 - (Fintype.card Client : Int) ≤ value ∧
          value ≤ limit.toInt + Fintype.card Client - 1)) := by
  have exactly : ∀ m, 1 ≤ m → m ≤ Fintype.card Client →
      ((∃ trace, ∃ s : State Client, Run (counter limit) (overlapping m) trace s ∧
        s.value.toInt = value) ↔ 1 - (m : Int) ≤ value ∧ value ≤ limit.toInt + m - 1) := by
    intro m atLeast enough
    constructor
    · rintro ⟨trace, s, run, rfl⟩
      obtain ⟨low, high⟩ := bounded_run atLeast positive (by omega) run
      omega
    · rintro ⟨low, high⟩
      obtain ⟨x, same, trace, run⟩ : ∃ x : Int32, x.toInt = value ∧ Reached limit m (resting x) :=
        range_reached atLeast enough positive (by omega) low high
      exact ⟨trace, resting x, run, same⟩
  refine ⟨exactly, fun clients => ?_⟩
  rw [← exactly _ clients (Nat.le_refl _)]
  constructor
  · rintro ⟨trace, s, run, same⟩
    exact ⟨trace, s, overlapping_all run, same⟩
  · rintro ⟨trace, s, run, same⟩
    exact ⟨trace, s, run.refine fun _ _ _ _ _ _ _ => trivial, same⟩

/-- Three clients take a counter with limit 3 to -2 and to 5, and no further. -/
theorem bad_mem_counter_range_three :
    (∃ trace, ∃ s : State (Fin 3), Run (counter 3) anyStep trace s ∧ s.value.toInt = -2) ∧
    (∃ trace, ∃ s : State (Fin 3), Run (counter 3) anyStep trace s ∧ s.value.toInt = 5) ∧
    ¬∃ trace, ∃ s : State (Fin 3), Run (counter 3) (overlapping 1) trace s ∧
      s.value.toInt = 4 := by
  refine ⟨?_, ?_, ?_⟩
  · exact ((bad_mem_counter_range (by decide) (by decide) (-2)).2 (by decide)).mpr (by decide)
  · exact ((bad_mem_counter_range (by decide) (by decide) 5).2 (by decide)).mpr (by decide)
  · rw [(bad_mem_counter_range (by decide) (by decide) 4).1 1 (by decide) (by decide)]
    decide

end Range

end FizzbeeMbt.Counter.BadMemCounter
