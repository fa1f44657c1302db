import FizzbeeMbt.Counter.FetchUpdate
import FizzbeeMbt.Counter.Agreement

/-! `GoodMemCounter` is linearizable: each call acts once, and the value is what the
actions made it. -/

namespace FizzbeeMbt.Counter.Rust

open FizzbeeMbt.Replay FizzbeeMbt.Runs

variable {Client : Type} [DecidableEq Client] {limit : Int32}

section Value

theorem closure_perform {current : Int32} (within : WithinRange limit.toInt current.toInt)
    (op : Op) : ((closure limit op current).getD current).toInt =
      (perform limit.toInt current.toInt op).2 := by
  cases op with
  | Inc => exact inc_perform within
  | Dec => exact dec_perform within
  | Get => rfl

omit [DecidableEq Client] in
/-- Reading a value acts only where the specification's action changes nothing. -/
theorem counted_read {trace : List (Event Client)} {value : Int32} {c : Client} {op : Op}
    {event : Event Client} (within : WithinRange limit.toInt value.toInt)
    (same : value.toInt = counted limit trace)
    (acts : event.acts limit = if closure limit op value = none then some (c, op) else none) :
    value.toInt = counted limit (event :: trace) := by
  unfold counted
  rw [acts]
  split_ifs with ends
  · have stays := closure_perform within op
    rw [ends, Option.getD_none] at stays
    simp only [← same]
    exact stays
  · exact same

theorem counted_step {trace : List (Event Client)} {s s' : State Client} {event : Event Client}
    (within : WithinRange limit.toInt s.value.toInt)
    (same : s.value.toInt = counted limit trace) (taken : Step limit s event s') :
    s'.value.toInt = counted limit (event :: trace) := by
  cases taken with
  | get c called =>
      have acts : (Event.load c .Get s.value).acts limit =
        if closure limit .Get s.value = none then some (c, .Get) else none := rfl
      exact counted_read within same acts
  | load c called updates => exact counted_read within same rfl
  | failed c loaded writes => exact counted_read within same rfl
  | @exchanged c op prev next loaded writes unchanged =>
      subst unchanged
      have moved := closure_perform within op
      rw [writes, Option.getD_some] at moved
      show next.toInt = (perform limit.toInt (counted limit trace) op).2
      rw [moved, same]
  | _ => exact same

omit [DecidableEq Client] in
theorem counted_within (positive : 0 ≤ limit.toInt) (trace : List (Event Client)) :
    WithinRange limit.toInt (counted limit trace) := by
  induction trace with
  | nil => exact within_init positive
  | cons event trace ih =>
      unfold counted
      split
      · exact perform_within positive ih _
      · exact ih

theorem value_counted (positive : 0 ≤ limit.toInt) {trace : List (Event Client)}
    {s : State Client} (run : Run (calls limit) anyStep trace s) :
    s.value.toInt = counted limit trace := by
  refine run.invariant (fun trace s => s.value.toInt = counted limit trace) ?_ ?_
  · rintro s ⟨initial, -⟩
    rw [initial]
    rfl
  · intro trace s event s' _ same _ taken
    exact counted_step (same ▸ counted_within positive trace) same taken

end Value

section Progress

/-- The client whose step an event is. -/
def Event.client : Event Client → Client
  | .call c _ => c
  | .load c _ _ => c
  | .exchanged c _ _ _ => c
  | .failed c _ _ => c
  | .stopped c => c
  | .returned c _ _ => c

variable {c : Client} {op : Op} {p trace : List (Event Client)} {event : Event Client}

omit [DecidableEq Client] in
theorem acts_client {c' : Client} {op' : Op} (acts : event.acts limit = some (c', op')) :
    c' = event.client := by
  cases event with
  | load c op current =>
      simp only [Event.acts] at acts
      split_ifs at acts
      exact (Prod.mk.inj (Option.some.inj acts)).1.symm
  | failed c op observed =>
      simp only [Event.acts] at acts
      split_ifs at acts
      exact (Prod.mk.inj (Option.some.inj acts)).1.symm
  | exchanged c op prev next => exact (Prod.mk.inj (Option.some.inj acts)).1.symm
  | _ => cases acts

theorem isCall_client (called : event.isCall c = true) : event.client = c := by
  cases event with
  | call c' op => exact of_decide_eq_true called
  | _ => cases called

theorem calledAt_later (uncalled : event.isCall c = false) :
    calledAt c (event :: trace) = calledAt c trace :=
  before_miss _ event trace uncalled

theorem calledAt_call : calledAt c (.call c op :: trace) = trace :=
  before_hit _ _ trace (by simp [Event.isCall])

theorem acted_cons : acted limit c (event :: trace) =
    if event.isCall c then []
    else
      match event.acts limit with
      | some (c', op) => if c' = c then (op, trace) :: acted limit c trace else acted limit c trace
      | none => acted limit c trace := rfl

/-- Events that are no call of a client and not its action leave its actions as they were. -/
theorem acted_later (uncalled : event.isCall c = false)
    (silent : ∀ op, event.acts limit ≠ some (c, op)) :
    acted limit c (event :: trace) = acted limit c trace := by
  rw [acted_cons, if_neg (by simp [uncalled])]
  cases acts : event.acts limit with
  | none => rfl
  | some found =>
      obtain ⟨c', op⟩ := found
      exact if_neg fun same : c' = c => silent op (by rw [acts, same])

theorem acted_acts (uncalled : event.isCall c = false) (acts : event.acts limit = some (c, op)) :
    acted limit c (event :: trace) = (op, trace) :: acted limit c trace := by
  rw [acted_cons, if_neg (by simp [uncalled]), acts]
  exact if_pos rfl

theorem acted_call : acted limit c (.call c op :: trace) = [] :=
  if_pos (by simp [Event.isCall])

theorem Begun.later (begun : Begun c op trace) (uncalled : event.isCall c = false) :
    Begun c op (event :: trace) := by
  unfold Begun
  rw [calledAt_later uncalled]
  exact begun.trans (List.suffix_cons event trace)

theorem Linearized.later (linearized : Linearized limit c op p trace)
    (uncalled : event.isCall c = false) (silent : ∀ op, event.acts limit ≠ some (c, op)) :
    Linearized limit c op p (event :: trace) := by
  refine ⟨(acted_later uncalled silent).trans linearized.once, ?_⟩
  rw [calledAt_later uncalled]
  exact linearized.inside.later event

/-- An action of a call that has not acted is its linearization point. -/
theorem linearized_now (begun : Begun c op trace) (idle : acted limit c trace = [])
    (uncalled : event.isCall c = false) (acts : event.acts limit = some (c, op)) :
    Linearized limit c op trace (event :: trace) := by
  refine ⟨?_, ?_⟩
  · rw [acted_acts uncalled acts, idle]
  · rw [calledAt_later uncalled]
    exact (between_now begun).later event

/-- How far a call has come: it acts at the read or the exchange after which it ends. -/
def Progress (limit : Int32) (trace : List (Event Client)) (c : Client) : Call → Prop
  | .idle => True
  | .called op => Begun c op trace ∧ acted limit c trace = []
  | .loaded op prev =>
      Begun c op trace ∧ op ≠ .Get ∧
        if closure limit op prev = none then ∃ p, Linearized limit c op p trace
        else acted limit c trace = []
  | .finished op result =>
      ∃ p, Linearized limit c op p trace ∧
        result.map Int32.toInt = (perform limit.toInt (counted limit p) op).1

theorem Progress.later {call : Call} (progress : Progress limit trace c call)
    (elsewhere : event.client ≠ c) : Progress limit (event :: trace) c call := by
  have uncalled : event.isCall c = false := by
    cases called : event.isCall c with
    | false => rfl
    | true => exact absurd (isCall_client called) elsewhere
  have silent : ∀ op, event.acts limit ≠ some (c, op) := fun op acts =>
    elsewhere (acts_client acts).symm
  have same : acted limit c (event :: trace) = acted limit c trace := acted_later uncalled silent
  cases call with
  | idle => trivial
  | called op => exact ⟨progress.1.later uncalled, same.trans progress.2⟩
  | loaded op prev =>
      obtain ⟨begun, updates, acts⟩ := progress
      refine ⟨begun.later uncalled, updates, ?_⟩
      split_ifs at acts ⊢ with ends
      · obtain ⟨p, linearized⟩ := acts
        exact ⟨p, linearized.later uncalled silent⟩
      · exact same.trans acts
  | finished op result =>
      obtain ⟨p, linearized, answer⟩ := progress
      exact ⟨p, linearized.later uncalled silent, answer⟩

/-- A read of the loop acts if the closure leaves what it read. -/
theorem progress_read {value : Int32} (begun : Begun c op trace) (updates : op ≠ .Get)
    (idle : acted limit c trace = []) (uncalled : event.isCall c = false)
    (acts : event.acts limit = if closure limit op value = none then some (c, op) else none) :
    Progress limit (event :: trace) c (.loaded op value) := by
  refine ⟨begun.later uncalled, updates, ?_⟩
  split_ifs at acts ⊢ with ends
  · exact ⟨trace, linearized_now begun idle uncalled acts⟩
  · exact (acted_later uncalled (by simp [acts])).trans idle

theorem Progress.waiting {op : Op} {prev next : Int32}
    (progress : Progress limit trace c (.loaded op prev))
    (writes : closure limit op prev = some next) :
    Begun c op trace ∧ op ≠ .Get ∧ acted limit c trace = [] := by
  obtain ⟨begun, updates, acts⟩ := progress
  rw [writes, if_neg (by simp)] at acts
  exact ⟨begun, updates, acts⟩

/-- An increment or decrement returns nothing. -/
theorem perform_unit (updates : op ≠ .Get) (MAX value : Int) : (perform MAX value op).1 = none := by
  cases op with
  | Get => exact absurd rfl updates
  | _ => rfl

/-- A step of a client moves its own call and no other. -/
theorem progress_at {s : State Client} {call : Call}
    (progress : ∀ d, Progress limit trace d (s.calls d)) (own : event.client = c)
    (moved : Progress limit (event :: trace) c call) (d : Client) :
    Progress limit (event :: trace) d ((s.at c call).calls d) := by
  by_cases mine : d = c
  · subst mine
    simp only [State.at, Function.update_self]
    exact moved
  · simp only [State.at, Function.update_of_ne mine]
    exact (progress d).later (own ▸ Ne.symm mine)

theorem progress_step {s s' : State Client} (same : s.value.toInt = counted limit trace)
    (progress : ∀ d, Progress limit trace d (s.calls d)) (taken : Step limit s event s')
    (d : Client) :
    Progress limit (event :: trace) d (s'.calls d) := by
  cases taken with
  | call c op idle =>
      have begun : Begun c op (.call c op :: trace) := by
        unfold Begun
        rw [calledAt_call]
      have moved : Progress limit (.call c op :: trace) c (.called op) := ⟨begun, acted_call⟩
      exact progress_at progress rfl moved d
  | get c called =>
      obtain ⟨begun, idle⟩ : Progress limit trace c (.called .Get) := called ▸ progress c
      have moved : Progress limit (.load c .Get s.value :: trace) c
          (.finished .Get (some s.value)) :=
        ⟨trace, linearized_now begun idle rfl rfl, congrArg some same⟩
      exact progress_at progress rfl moved d
  | @load c op called updates =>
      obtain ⟨begun, idle⟩ : Progress limit trace c (.called op) := called ▸ progress c
      have moved : Progress limit (.load c op s.value :: trace) c (.loaded op s.value) :=
        progress_read begun updates idle rfl rfl
      exact progress_at progress rfl moved d
  | @exchanged c op prev next loaded writes unchanged =>
      have waiting : Progress limit trace c (.loaded op prev) := loaded ▸ progress c
      obtain ⟨begun, updates, idle⟩ := waiting.waiting writes
      have moved : Progress limit (.exchanged c op prev next :: trace) c (.finished op none) :=
        ⟨trace, linearized_now begun idle rfl rfl, (perform_unit updates _ _).symm⟩
      exact progress_at progress rfl moved d
  | @failed c op prev next loaded writes =>
      have waiting : Progress limit trace c (.loaded op prev) := loaded ▸ progress c
      obtain ⟨begun, updates, idle⟩ := waiting.waiting writes
      have moved : Progress limit (.failed c op s.value :: trace) c (.loaded op s.value) :=
        progress_read begun updates idle rfl rfl
      exact progress_at progress rfl moved d
  | @stopped c op prev loaded ends =>
      obtain ⟨begun, updates, acts⟩ : Progress limit trace c (.loaded op prev) :=
        loaded ▸ progress c
      rw [if_pos ends] at acts
      obtain ⟨p, linearized⟩ := acts
      have moved : Progress limit (.stopped c :: trace) c (.finished op none) :=
        ⟨p, linearized.later rfl (by simp [Event.acts]), (perform_unit updates _ _).symm⟩
      exact progress_at progress rfl moved d
  | @returned c op result finished =>
      have moved : Progress limit (.returned c op result :: trace) c .idle := trivial
      exact progress_at progress rfl moved d

theorem progress_run (positive : 0 ≤ limit.toInt) {s : State Client}
    (run : Run (calls limit) anyStep trace s) : ∀ c, Progress limit trace c (s.calls c) := by
  refine run.invariant (fun trace s => ∀ c, Progress limit trace c (s.calls c)) ?_ ?_
  · rintro s ⟨-, idle⟩ c
    rw [idle c]
    trivial
  · intro trace s event s' upto progress _ taken
    exact progress_step (value_counted positive upto) progress taken

/-- Only a call in progress that has not acted acts. -/
theorem step_acts {s s' : State Client} (progress : ∀ d, Progress limit trace d (s.calls d))
    (taken : Step limit s event s') (acts : event.acts limit = some (c, op)) :
    Begun c op trace ∧ acted limit c trace = [] := by
  have own := acts_client acts
  cases taken with
  | get d called =>
      obtain rfl : c = d := own
      obtain rfl : Op.Get = op := (Prod.mk.inj (Option.some.inj acts)).2
      have waiting : Progress limit trace c (.called .Get) := called ▸ progress c
      exact waiting
  | @load d op' called updates =>
      obtain rfl : c = d := own
      simp only [Event.acts] at acts
      split_ifs at acts
      obtain rfl := (Prod.mk.inj (Option.some.inj acts)).2
      have waiting : Progress limit trace c (.called op') := called ▸ progress c
      exact waiting
  | @exchanged d op' prev next loaded writes unchanged =>
      obtain rfl : c = d := own
      obtain rfl := (Prod.mk.inj (Option.some.inj acts)).2
      have waiting : Progress limit trace c (.loaded op' prev) := loaded ▸ progress c
      obtain ⟨begun, -, idle⟩ := waiting.waiting writes
      exact ⟨begun, idle⟩
  | @failed d op' prev next loaded writes =>
      obtain rfl : c = d := own
      simp only [Event.acts] at acts
      split_ifs at acts
      obtain rfl := (Prod.mk.inj (Option.some.inj acts)).2
      have waiting : Progress limit trace c (.loaded op' prev) := loaded ▸ progress c
      obtain ⟨begun, -, idle⟩ := waiting.waiting writes
      exact ⟨begun, idle⟩
  | _ => cases acts

end Progress

/-- The value is in range and what the actions so far made it, each action is the first of
a call in progress, and a completed call acted exactly once, between its call and its
return, with the answer of the specification at that instant. -/
theorem good_mem_counter_linearizable (positive : 0 ≤ limit.toInt)
    {trace : List (Event Client)} {s : State Client} (run : Run (calls limit) anyStep trace s) :
    (s.value.toInt = counted limit trace ∧ WithinRange limit.toInt s.value.toInt) ∧
    (∀ c op event past, event :: past <:+ trace → event.acts limit = some (c, op) →
      Begun c op past ∧ acted limit c past = []) ∧
    ∀ c op result past, .returned c op result :: past <:+ trace →
      ∃ p, Linearized limit c op p past ∧
        result.map Int32.toInt = (perform limit.toInt (counted limit p) op).1 := by
  have same := value_counted positive run
  refine ⟨⟨same, same ▸ counted_within positive trace⟩, ?_, ?_⟩
  · intro c op event past emitted acts
    obtain ⟨s₁, s₂, upto, -, taken⟩ := run.emitted emitted
    exact step_acts (progress_run positive upto) taken acts
  · intro c op result past emitted
    obtain ⟨s₁, s₂, upto, -, taken⟩ := run.emitted emitted
    have progress := progress_run positive upto c
    cases taken with
    | returned _ finished =>
        rw [finished] at progress
        exact progress

def started : State Bool := ⟨0, fun _ => .idle⟩

/-- Both clients load 0 with limit 1; the second one's exchange fails and observes the limit. -/
def overtaken : List (Event Bool) :=
  [.returned false .Inc none, .stopped false, .failed false .Inc 1, .returned true .Inc none,
    .exchanged true .Inc 0 1, .load false .Inc 0, .load true .Inc 0, .call false .Inc,
    .call true .Inc]

theorem overtaken_run : ∃ s, Run (calls 1) anyStep overtaken s ∧ s.value = 1 := by
  have start : Run (calls 1) anyStep [] started := .start ⟨rfl, fun _ => rfl⟩
  have called := (start.step (.call _ true .Inc rfl) trivial).step (.call _ false .Inc rfl) trivial
  have first := called.step (.load _ true rfl (by decide)) trivial
  have second := first.step (.load _ false rfl (by decide)) trivial
  have won := second.step (.exchanged _ true rfl rfl rfl) trivial
  have left := won.step (.returned _ true rfl) trivial
  have lost := left.step (.failed _ false rfl rfl) trivial
  have ended := lost.step (.stopped _ false rfl rfl) trivial
  exact ⟨_, ended.step (.returned _ false rfl) trivial, rfl⟩

theorem good_mem_counter_linearizable_overtaken :
    ∃ s, Run (calls 1) anyStep overtaken s ∧ s.value.toInt = counted 1 overtaken ∧
      ∃ p, Linearized 1 false .Inc p overtaken.tail := by
  obtain ⟨s, run, -⟩ := overtaken_run
  obtain ⟨⟨same, -⟩, -, returns⟩ := good_mem_counter_linearizable (by decide) run
  obtain ⟨p, linearized, -⟩ := returns false .Inc none overtaken.tail (List.suffix_refl overtaken)
  exact ⟨s, run, same, p, linearized⟩

end FizzbeeMbt.Counter.Rust
