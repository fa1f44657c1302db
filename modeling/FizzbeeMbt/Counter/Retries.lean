import FizzbeeMbt.Lib.Progress
import FizzbeeMbt.Counter.FetchUpdate

/-! The retry loop of `fetch_update` ends: an exchange that fails was overtaken by one
that did not. -/

namespace FizzbeeMbt.Counter.Rust

open FizzbeeMbt.Replay FizzbeeMbt.Runs

variable {Client : Type} [DecidableEq Client] {limit : Int32}

def Event.calls : Event Client → Bool
  | .call _ _ => true
  | _ => false

/-- An exchange does not fail where the value is the one it expects. -/
def WasOvertaken (s : State Client) : Event Client → Prop
  | .failed c _ _ => ∀ op, s.calls c ≠ .loaded op s.value
  | _ => True

/-- The calls, if no exchange fails spuriously. -/
def strongCalls (limit : Int32) : System (State Client) (Event Client) where
  start := (calls limit).start
  step s event s' := Step limit s event s' ∧ WasOvertaken s event

/-- A bound on the steps of a call, when each of `n` calls may be overtaken once for each
exchange. -/
def Call.work (n : Nat) (value : Int32) : Call → Nat
  | .idle => 0
  | .called _ => n + 2
  | .loaded _ prev => if prev = value then n + 1 else n + 2
  | .finished _ _ => 1

def remaining (busy : Finset Client) (s : State Client) : Nat :=
  ∑ c ∈ busy, (s.calls c).work busy.card s.value

theorem work_le (n : Nat) (value : Int32) (call : Call) : call.work n value ≤ n + 2 := by
  cases call with
  | loaded op prev =>
      simp only [Call.work]
      split_ifs <;> omega
  | _ =>
      simp only [Call.work]
      omega

/-- Another value costs a call one more step at most. -/
theorem work_overtaken (n : Nat) (value value' : Int32) (call : Call) :
    call.work n value' ≤ call.work n value + 1 := by
  cases call with
  | loaded op prev =>
      simp only [Call.work]
      split_ifs <;> omega
  | _ => exact Nat.le_succ _

section Steps

variable {busy : Finset Client} {s : State Client} {c : Client} {call : Call}

theorem remaining_move (member : c ∈ busy)
    (lower : call.work busy.card s.value < (s.calls c).work busy.card s.value) :
    remaining busy (s.at c call) < remaining busy s := by
  apply shares_lower member
  · simpa only [State.at, Function.update_self] using lower
  · intro d differ
    simp only [State.at, Function.update_of_ne differ, le_refl]

theorem remaining_exchange (member : c ∈ busy) (value : Int32)
    (pays : call.work busy.card value + busy.card ≤ (s.calls c).work busy.card s.value) :
    remaining busy { s.at c call with value } < remaining busy s := by
  apply shares_pay member (Nat.le_refl _)
  · simpa only [State.at, Function.update_self] using pays
  · intro d differ
    simp only [State.at, Function.update_of_ne differ]
    exact work_overtaken _ _ _ _

/-- Every step of a call brings the calls in progress nearer to their end. -/
theorem remaining_step {s' : State Client} {event : Event Client}
    (only : ∀ d, d ∉ busy → s.calls d = .idle) (inner : event.calls = false)
    (taken : (strongCalls limit).step s event s') :
    (∀ d, d ∉ busy → s'.calls d = .idle) ∧ remaining busy s' < remaining busy s := by
  have moving : ∀ {c call}, s.calls c ≠ .idle → c ∈ busy ∧
      ∀ d, d ∉ busy → (s.at c call).calls d = .idle := by
    intro c call moves
    have member : c ∈ busy := by
      by_contra outside
      exact moves (only c outside)
    refine ⟨member, ?_⟩
    intro d outside
    have differ : d ≠ c := fun same => outside (same ▸ member)
    simp only [State.at, Function.update_of_ne differ]
    exact only d outside
  obtain ⟨taken, fails⟩ := taken
  cases taken with
  | call c op idle => cases inner
  | get c called =>
      obtain ⟨member, others⟩ := moving (by rw [called]; simp)
      refine ⟨others, remaining_move member ?_⟩
      simp only [called, Call.work]
      omega
  | load c called updates =>
      obtain ⟨member, others⟩ := moving (by rw [called]; simp)
      refine ⟨others, remaining_move member ?_⟩
      simp only [called, Call.work, if_true]
      omega
  | exchanged c loaded writes unchanged =>
      obtain ⟨member, others⟩ := moving (by rw [loaded]; simp)
      refine ⟨others, remaining_exchange member _ ?_⟩
      simp only [loaded, unchanged, Call.work, if_true]
      omega
  | @failed c op prev next loaded writes =>
      obtain ⟨member, others⟩ := moving (by rw [loaded]; simp)
      have stale : prev ≠ s.value := fun same => fails op (same ▸ loaded)
      refine ⟨others, remaining_move member ?_⟩
      simp only [loaded, Call.work, if_true, if_neg stale]
      omega
  | stopped c loaded ends =>
      obtain ⟨member, others⟩ := moving (by rw [loaded]; simp)
      have some := Finset.card_pos.mpr ⟨c, member⟩
      refine ⟨others, remaining_move member ?_⟩
      simp only [loaded, Call.work]
      split_ifs <;> omega
  | returned c finished =>
      obtain ⟨member, others⟩ := moving (by rw [finished]; simp)
      refine ⟨others, remaining_move member ?_⟩
      simp only [finished, Call.work]
      omega

/-- A call in progress always has a step of its own. -/
theorem call_goes_on (moves : s.calls c ≠ .idle) :
    (strongCalls limit).Enabled (fun event => event.calls = false) s := by
  cases at' : s.calls c with
  | idle => exact absurd at' moves
  | called op =>
      by_cases get : op = .Get
      · exact ⟨_, _, rfl, .get s c (get ▸ at'), trivial⟩
      · exact ⟨_, _, rfl, .load s c at' get, trivial⟩
  | loaded op prev =>
      cases writes : closure limit op prev with
      | none => exact ⟨_, _, rfl, .stopped s c at' writes, trivial⟩
      | some next =>
          by_cases unchanged : s.value = prev
          · exact ⟨_, _, rfl, .exchanged s c at' writes unchanged, trivial⟩
          · refine ⟨_, _, rfl, .failed s c at' writes, ?_⟩
            intro op' loaded
            rw [at'] at loaded
            cases loaded
            exact unchanged rfl
  | finished op result => exact ⟨_, _, rfl, .returned s c at', trivial⟩

end Steps

/-- From any state, the `k` calls in progress take at most `k * (k + 2)` more steps,
whatever their order, and one of them can take one until all have returned. -/
theorem fetch_updates_end {busy : Finset Client} {s : State Client}
    (only : ∀ c, c ∉ busy → s.calls c = .idle) :
    (∀ later s', InnerRun (strongCalls limit) (fun event => event.calls = false) s later s' →
      later.length ≤ busy.card * (busy.card + 2)) ∧
    Quiesces (strongCalls limit) (fun event => event.calls = false)
      (fun event => event.calls = false) (fun s => ∀ c, s.calls c = .idle) s := by
  have lowers : ∀ s event s', (∀ c, c ∉ busy → s.calls c = .idle) → event.calls = false →
      (strongCalls limit).step s event s' →
      (∀ c, c ∉ busy → s'.calls c = .idle) ∧ remaining busy s' < remaining busy s :=
    fun _ _ _ only inner taken => remaining_step only inner taken
  constructor
  · intro later s' onward
    have bound := (length_le_measure _ (remaining busy) only lowers onward).2
    have total : remaining busy s ≤ busy.card * (busy.card + 2) :=
      Finset.sum_le_card_nsmul busy _ _ fun c _ => work_le busy.card s.value (s.calls c)
    omega
  · apply quiesces_of_measure _ (remaining busy) only lowers
    intro s only undone
    obtain ⟨c, moves⟩ := not_forall.mp undone
    exact call_goes_on moves

/-- Two increments that have read the same value end within eight steps. -/
theorem fetch_updates_end_two :
    ∃ later, ∃ s' : State Bool, InnerRun (strongCalls 3) (fun event => event.calls = false)
      ⟨0, fun _ => .loaded .Inc 0⟩ later s' ∧ (∀ c, s'.calls c = .idle) ∧ later.length ≤ 8 := by
  have busy : ∀ c, c ∉ (Finset.univ : Finset Bool) →
      (⟨0, fun _ => .loaded .Inc 0⟩ : State Bool).calls c = .idle :=
    fun c outside => absurd (Finset.mem_univ c) outside
  obtain ⟨bound, quiesces⟩ := (fetch_updates_end busy : _ ∧ Quiesces (strongCalls 3) _ _ _ _)
  obtain ⟨later, s', onward, idle⟩ := quiesces.ends fun _ own => own
  exact ⟨later, s', onward, idle, bound later s' onward⟩

end FizzbeeMbt.Counter.Rust
