import FizzbeeMbt.TodoApp.Spec

/-! The records of the specification against the history of the actions on them. -/

namespace FizzbeeMbt.TodoApp

open FizzbeeMbt.Runs

variable {Value : Type} [DecidableEq Value] {MAX_TODOS : Nat} {TODO_VALUES : List Value}

section History

/-- How many todos the actions created; the next one gets the id after it. -/
def created : List (Action Value) → Nat
  | [] => 0
  | .CreateTodo _ :: earlier => created earlier + 1
  | _ :: earlier => created earlier

/-- The value of the last Create or Update of an id. -/
def valueOf (id : Nat) : List (Action Value) → Option Value
  | [] => none
  | .CreateTodo value :: earlier =>
      if id = created earlier + 1 then some value else valueOf id earlier
  | .UpdateTodo id' value :: earlier => if id = id' then some value else valueOf id earlier
  | _ :: earlier => valueOf id earlier

def pinOf (id : Nat) : Action Value → Option Bool
  | .PinTodo id' => if id = id' then some true else none
  | .UnPinTodo id' => if id = id' then some false else none
  | _ => none

/-- Whether the last Pin or UnPin of an id was a Pin. -/
def pinnedOf (id : Nat) (trace : List (Action Value)) : Bool :=
  (trace.findSome? (pinOf id)).getD false

/-- The id an action is about, other than by creating it. -/
def Action.target : Action Value → Option Nat
  | .UpdateTodo id _ => some id
  | .DeleteTodo id => some id
  | .PinTodo id => some id
  | .UnPinTodo id => some id
  | _ => none

def Action.creates : Action Value → Bool
  | .CreateTodo _ => true
  | _ => false

section Other

omit [DecidableEq Value]

theorem pinnedOf_cons (id : Nat) (action : Action Value) (trace : List (Action Value)) :
    pinnedOf id (action :: trace) = (pinOf id action).getD (pinnedOf id trace) := by
  unfold pinnedOf
  rw [List.findSome?_cons]
  cases pinOf id action <;> rfl

variable {id : Nat} {action : Action Value} (trace : List (Action Value))

theorem created_other (uncreating : action.creates = false) :
    created (action :: trace) = created trace := by
  cases action with
  | CreateTodo value => cases uncreating
  | _ => rfl

theorem pinnedOf_other (elsewhere : action.target ≠ some id) :
    pinnedOf id (action :: trace) = pinnedOf id trace := by
  have silent : pinOf id action = none := by
    cases action with
    | PinTodo id' => exact if_neg fun same => elsewhere (congrArg some same.symm)
    | UnPinTodo id' => exact if_neg fun same => elsewhere (congrArg some same.symm)
    | _ => rfl
  rw [pinnedOf_cons, silent]
  rfl

theorem deleted_other (elsewhere : action.target ≠ some id) :
    .DeleteTodo id ∈ action :: trace ↔ .DeleteTodo id ∈ trace := by
  have differ : .DeleteTodo id ≠ action := by
    rintro rfl
    exact elsewhere rfl
  simp [differ]

theorem valueOf_other (elsewhere : action.target ≠ some id)
    (old : action.creates = true → id ≤ created trace) :
    valueOf id (action :: trace) = valueOf id trace := by
  cases action with
  | CreateTodo value => exact if_neg (Nat.ne_of_lt (Nat.lt_succ_of_le (old rfl)))
  | UpdateTodo id' value => exact if_neg fun same => elsewhere (congrArg some same.symm)
  | _ => rfl

end Other

/-- A record is what the actions on its id made it. -/
structure RecordOf (trace : List (Action Value)) (id : Nat) (todo : Todo Value) : Prop where
  own : todo.id = id
  value : valueOf id trace = some todo.value
  deleted : todo.deleted = true ↔ .DeleteTodo id ∈ trace
  pinned : todo.pinned = pinnedOf id trace

omit [DecidableEq Value] in
theorem RecordOf.other {trace : List (Action Value)} {id : Nat} {todo : Todo Value}
    (record : RecordOf trace id todo) {action : Action Value}
    (elsewhere : action.target ≠ some id) (old : action.creates = true → id ≤ created trace) :
    RecordOf (action :: trace) id todo where
  own := record.own
  value := (valueOf_other trace elsewhere old).trans record.value
  deleted := record.deleted.trans (deleted_other trace elsewhere).symm
  pinned := record.pinned.trans (pinnedOf_other trace elsewhere).symm

end History

section Steps

/-- What an action that assigns to a record makes of it. -/
inductive Assigns (app : App Value) : Action Value → Nat → Todo Value → Todo Value → Prop
  | updates (id : Nat) (value : Value) (todo : Todo Value) :
      Assigns app (.UpdateTodo id value) id todo { todo with value := value }
  | deletes (id : Nat) (todo : Todo Value) :
      Assigns app (.DeleteTodo id) id todo { todo with deleted := true }
  | pins (id : Nat) (todo : Todo Value)
      (free : ∀ t ∈ app.todos, ¬(t.pinned = true ∧ t.deleted = false)) :
      Assigns app (.PinTodo id) id todo { todo with pinned := true }
  | unpins (id : Nat) (todo : Todo Value) :
      Assigns app (.UnPinTodo id) id todo { todo with pinned := false }

/-- All that an enabled action can do. -/
inductive Stepped (app : App Value) : Action Value → App Value → Prop
  | creates (value : Value) :
      Stepped app (.CreateTodo value)
        { todos := app.todos ++ [⟨app.next_id, value, false, false⟩]
          next_id := app.next_id + 1 }
  | reads (id : Nat) : Stepped app (.ReadTodo id) app
  | lists : Stepped app .ListTodo app
  | assigns {action : Action Value} {id : Nat} {todo todo' : Todo Value} (positive : 1 ≤ id)
      (found : app.todos[id - 1]? = some todo) (kept : todo.deleted = false)
      (what : Assigns app action id todo todo') :
      Stepped app action { app with todos := app.todos.set (id - 1) todo' }

omit [DecidableEq Value] in
theorem chosen_ok {app : App Value} {id : Nat} {act : Todo Value → Outcome Value}
    {result : Returned Value × App Value} (done : chosen app id act = .ok result) :
    1 ≤ id ∧ ∃ todo, app.todos[id - 1]? = some todo ∧ act todo = .ok result := by
  unfold chosen at done
  split_ifs at done with positive
  cases found : app.todos[id - 1]? with
  | none => simp [found] at done
  | some todo => exact ⟨positive, todo, rfl, by simpa [found] using done⟩

omit [DecidableEq Value] in
theorem assign_ok {app app' : App Value} {id : Nat} {todo : Todo Value} {r : Returned Value}
    (done : assign app id todo = .ok (r, app')) :
    app' = { app with todos := app.todos.set (id - 1) todo } :=
  (Prod.mk.inj (Except.ok.inj done)).2.symm

theorem next_stepped {app app' : App Value} {action : Action Value}
    (done : next MAX_TODOS TODO_VALUES app action = .ok app') : Stepped app action app' := by
  unfold next at done
  cases performed : perform MAX_TODOS TODO_VALUES app action with
  | error e => simp [performed] at done
  | ok result =>
      obtain ⟨r, after⟩ := result
      obtain rfl : after = app' := by simpa [performed] using done
      clear done
      cases action with
      | CreateTodo value =>
          simp only [perform] at performed
          split_ifs at performed
          obtain ⟨-, rfl⟩ := Prod.mk.inj (Except.ok.inj performed)
          exact .creates value
      | UpdateTodo id value =>
          obtain ⟨positive, todo, found, acted⟩ := chosen_ok performed
          split_ifs at acted with enabled
          rw [assign_ok acted]
          exact .assigns positive found enabled.1 (.updates id value todo)
      | DeleteTodo id =>
          obtain ⟨positive, todo, found, acted⟩ := chosen_ok performed
          split_ifs at acted with kept
          rw [assign_ok acted]
          exact .assigns positive found kept (.deletes id todo)
      | ReadTodo id =>
          obtain ⟨-, todo, -, acted⟩ := chosen_ok performed
          have same : after = app := by
            split_ifs at acted <;> exact (Prod.mk.inj (Except.ok.inj acted)).2.symm
          rw [same]
          exact .reads id
      | ListTodo =>
          obtain ⟨-, rfl⟩ := Prod.mk.inj (Except.ok.inj performed)
          exact .lists
      | PinTodo id =>
          simp only [perform] at performed
          split_ifs at performed with taken
          obtain ⟨positive, todo, found, acted⟩ := chosen_ok performed
          split_ifs at acted with kept
          rw [assign_ok acted]
          refine .assigns positive found kept (.pins id todo ?_)
          simpa using taken
      | UnPinTodo id =>
          obtain ⟨positive, todo, found, acted⟩ := chosen_ok performed
          split_ifs at acted with kept
          rw [assign_ok acted]
          exact .assigns positive found kept (.unpins id todo)

omit [DecidableEq Value] in
theorem Assigns.target {app : App Value} {action : Action Value} {id : Nat}
    {todo todo' : Todo Value} (what : Assigns app action id todo todo') :
    action.target = some id ∧ action.creates = false := by
  cases what <;> exact ⟨rfl, rfl⟩

omit [DecidableEq Value] in
/-- An assignment writes into the record what it adds to the history of its id. -/
theorem RecordOf.assign {trace : List (Action Value)} {id : Nat} {todo todo' : Todo Value}
    (record : RecordOf trace id todo) {app : App Value} {action : Action Value}
    (what : Assigns app action id todo todo') : RecordOf (action :: trace) id todo' := by
  obtain ⟨own, value, deleted, pinned⟩ := record
  cases what with
  | updates v =>
      exact ⟨own, if_pos rfl, by simpa using deleted, by rw [pinnedOf_cons]; exact pinned⟩
  | deletes => exact ⟨own, value, by simp, by rw [pinnedOf_cons]; exact pinned⟩
  | pins => exact ⟨own, value, by simpa using deleted, by simp [pinnedOf_cons, pinOf]⟩
  | unpins => exact ⟨own, value, by simpa using deleted, by simp [pinnedOf_cons, pinOf]⟩

end Steps

section Tracks

def Todo.showsPin (todo : Todo Value) : Prop := todo.pinned = true ∧ todo.deleted = false

/-- Positions, ids and the counter against the history, and the records one by one. -/
structure Tracks (trace : List (Action Value)) (app : App Value) : Prop where
  counted : app.todos.length = created trace
  counter : app.next_id = app.todos.length + 1
  addressed : ∀ action ∈ trace, ∀ id ∈ action.target, id ≤ app.todos.length
  record : ∀ (i : Nat) todo, app.todos[i]? = some todo → RecordOf trace (i + 1) todo
  one : ∀ (i j : Nat) (todo other : Todo Value), app.todos[i]? = some todo →
    app.todos[j]? = some other → todo.showsPin → other.showsPin → i = j

omit [DecidableEq Value]

theorem tracks_init : Tracks ([] : List (Action Value)) Init := by
  constructor <;> simp [Init, created]

/-- An id that was not given out has no history. -/
theorem Tracks.fresh {trace : List (Action Value)} {app : App Value} (tracks : Tracks trace app) :
    .DeleteTodo (app.todos.length + 1) ∉ trace ∧
      pinnedOf (app.todos.length + 1) trace = false := by
  constructor
  · intro member
    exact Nat.not_succ_le_self _ (tracks.addressed _ member _ rfl)
  · have silent : trace.findSome? (pinOf (app.todos.length + 1)) = none := by
      apply List.findSome?_eq_none_iff.mpr
      intro action member
      have low := tracks.addressed action member
      cases action with
      | PinTodo id => exact if_neg fun same => Nat.not_succ_le_self _ (same ▸ low id rfl)
      | UnPinTodo id => exact if_neg fun same => Nat.not_succ_le_self _ (same ▸ low id rfl)
      | _ => rfl
    rw [pinnedOf, silent]
    rfl

theorem getElem?_append_cases {l : List (Todo Value)} {last todo : Todo Value} {i : Nat}
    (found : (l ++ [last])[i]? = some todo) :
    l[i]? = some todo ∧ i < l.length ∨ i = l.length ∧ todo = last := by
  rcases Nat.lt_trichotomy i l.length with low | rfl | high
  · rw [List.getElem?_append_left low] at found
    exact Or.inl ⟨found, low⟩
  · rw [List.getElem?_concat_length] at found
    exact Or.inr ⟨rfl, (Option.some.inj found).symm⟩
  · have bound := (List.getElem?_eq_some_iff.mp found).1
    rw [List.length_append, List.length_singleton] at bound
    omega

theorem Tracks.create {trace : List (Action Value)} {app : App Value}
    (tracks : Tracks trace app) (value : Value) :
    Tracks (.CreateTodo value :: trace)
      { todos := app.todos ++ [⟨app.next_id, value, false, false⟩]
        next_id := app.next_id + 1 } := by
  obtain ⟨kept, unpinned⟩ := tracks.fresh
  constructor
  · simp [created, tracks.counted]
  · simp [tracks.counter]
  · intro action member id target
    rw [List.length_append]
    rcases List.mem_cons.mp member with rfl | member
    · cases target
    · exact Nat.le_add_right_of_le (tracks.addressed action member id target)
  · intro i todo found
    rcases getElem?_append_cases found with ⟨found, low⟩ | ⟨rfl, rfl⟩
    · have old : i + 1 ≤ created trace := tracks.counted ▸ low
      exact (tracks.record i todo found).other (by simp [Action.target]) fun _ => old
    · refine ⟨tracks.counter, ?_, ?_, ?_⟩
      · exact if_pos (congrArg (· + 1) tracks.counted)
      · simp [kept]
      · rw [pinnedOf_other trace (by simp [Action.target]), unpinned]
  · intro i j todo other found found' pinned pinned'
    rcases getElem?_append_cases found with ⟨found, -⟩ | ⟨-, rfl⟩
    · rcases getElem?_append_cases found' with ⟨found', -⟩ | ⟨-, rfl⟩
      · exact tracks.one i j todo other found found' pinned pinned'
      · cases pinned'.1
    · cases pinned.1

theorem getElem?_set_cases {l : List (Todo Value)} {new todo : Todo Value} {p i : Nat}
    (found : (l.set p new)[i]? = some todo) :
    i = p ∧ todo = new ∨ i ≠ p ∧ l[i]? = some todo := by
  by_cases same : i = p
  · subst same
    have bound := (List.getElem?_eq_some_iff.mp found).1
    rw [List.length_set] at bound
    rw [List.getElem?_set_self bound] at found
    exact Or.inl ⟨rfl, (Option.some.inj found).symm⟩
  · rw [List.getElem?_set_ne (Ne.symm same)] at found
    exact Or.inr ⟨same, found⟩

/-- A record shows a pin after an assignment if it did before, or if it was pinned while
none showed one. -/
theorem Assigns.showsPin {app : App Value} {action : Action Value} {id : Nat}
    {todo todo' : Todo Value} (what : Assigns app action id todo todo') (pinned : todo'.showsPin) :
    todo.showsPin ∨ ∀ t ∈ app.todos, ¬t.showsPin := by
  cases what with
  | updates value => exact Or.inl pinned
  | deletes => cases pinned.2
  | pins _ _ free => exact Or.inr free
  | unpins => cases pinned.1

theorem Tracks.assign {trace : List (Action Value)} {app : App Value}
    (tracks : Tracks trace app) {action : Action Value} {id : Nat} {todo todo' : Todo Value}
    (positive : 1 ≤ id) (found : app.todos[id - 1]? = some todo)
    (what : Assigns app action id todo todo') :
    Tracks (action :: trace) { app with todos := app.todos.set (id - 1) todo' } := by
  obtain ⟨target, uncreating⟩ := what.target
  have here : id - 1 + 1 = id := Nat.sub_add_cancel positive
  have bound : id ≤ app.todos.length := by
    have low := (List.getElem?_eq_some_iff.mp found).1
    omega
  constructor
  · rw [List.length_set, created_other trace uncreating, tracks.counted]
  · rw [List.length_set, tracks.counter]
  · intro action' member id' target'
    rw [List.length_set]
    rcases List.mem_cons.mp member with rfl | member
    · obtain rfl := Option.some.inj (target.symm.trans target')
      exact bound
    · exact tracks.addressed action' member id' target'
  · intro i t found'
    rcases getElem?_set_cases found' with ⟨rfl, rfl⟩ | ⟨differ, found'⟩
    · have record := tracks.record (id - 1) todo found
      rw [here] at record ⊢
      exact record.assign what
    · apply (tracks.record i t found').other
      · rw [target]
        intro same
        have equal := Option.some.inj same
        omega
      · simp [uncreating]
  · intro i j t other found₁ found₂ pinned₁ pinned₂
    rcases getElem?_set_cases found₁ with ⟨rfl, rfl⟩ | ⟨-, kept₁⟩
    · rcases getElem?_set_cases found₂ with ⟨rfl, rfl⟩ | ⟨-, kept₂⟩
      · rfl
      · rcases what.showsPin pinned₁ with before | free
        · exact tracks.one _ j todo other found kept₂ before pinned₂
        · exact absurd pinned₂ (free other (List.mem_of_getElem? kept₂))
    · rcases getElem?_set_cases found₂ with ⟨rfl, rfl⟩ | ⟨-, kept₂⟩
      · rcases what.showsPin pinned₂ with before | free
        · exact tracks.one i _ t todo kept₁ found pinned₁ before
        · exact absurd pinned₁ (free t (List.mem_of_getElem? kept₁))
      · exact tracks.one i j t other kept₁ kept₂ pinned₁ pinned₂

theorem Tracks.read {trace : List (Action Value)} {app : App Value} (tracks : Tracks trace app)
    {action : Action Value} (idle : action.target = none) (uncreating : action.creates = false) :
    Tracks (action :: trace) app := by
  constructor
  · rw [created_other trace uncreating, tracks.counted]
  · exact tracks.counter
  · intro action' member id target
    rcases List.mem_cons.mp member with rfl | member
    · rw [idle] at target
      cases target
    · exact tracks.addressed action' member id target
  · intro i todo found
    apply (tracks.record i todo found).other
    · simp [idle]
    · simp [uncreating]
  · exact tracks.one

end Tracks

section Runs

variable {trace : List (Action Value)} {app : App Value}

theorem tracks_run (run : Run (system MAX_TODOS TODO_VALUES) anyStep trace app) :
    Tracks trace app := by
  refine run.invariant Tracks ?_ ?_
  · rintro _ rfl
    exact tracks_init
  · intro trace s action s' _ tracks _ taken
    cases next_stepped taken with
    | creates value => exact tracks.create value
    | reads id => exact tracks.read rfl rfl
    | lists => exact tracks.read rfl rfl
    | assigns positive found kept what => exact tracks.assign positive found what

omit [DecidableEq Value] in
/-- An action assigns to the record of its id alone, and a new one goes to another
position. -/
theorem Stepped.keeps_other {app' : App Value} {action : Action Value}
    (stepped : Stepped app action app') {i : Nat} {todo : Todo Value}
    (found : app.todos[i]? = some todo) (elsewhere : action.target ≠ some (i + 1)) :
    app'.todos[i]? = some todo := by
  cases stepped with
  | creates value =>
      have low := (List.getElem?_eq_some_iff.mp found).1
      exact (List.getElem?_append_left low).trans found
  | reads id => exact found
  | lists => exact found
  | @assigns action id target todo' positive found' kept what =>
      have differ : id - 1 ≠ i := by
        rintro rfl
        rw [what.target.1, Nat.sub_add_cancel positive] at elsewhere
        exact elsewhere rfl
      exact (List.getElem?_set_ne differ).trans found

omit [DecidableEq Value] in
/-- No action has a deleted record for its target. -/
theorem Stepped.keeps_deleted {app' : App Value} {action : Action Value}
    (stepped : Stepped app action app') {i : Nat} {todo : Todo Value}
    (found : app.todos[i]? = some todo) (deleted : todo.deleted = true) :
    app'.todos[i]? = some todo := by
  apply stepped.keeps_other found
  intro own
  cases stepped with
  | creates value => cases own
  | reads id => cases own
  | lists => cases own
  | @assigns action id target todo' positive found' kept what =>
      obtain rfl : id = i + 1 := Option.some.inj (what.target.1.symm.trans own)
      obtain rfl := Option.some.inj (found.symm.trans found')
      simp [deleted] at kept

theorem deleted_stays (run : Run (system MAX_TODOS TODO_VALUES) anyStep trace app)
    {past : List (Action Value)} {app₀ : App Value} (earlier : past <:+ trace)
    (run₀ : Run (system MAX_TODOS TODO_VALUES) anyStep past app₀) {i : Nat} {todo : Todo Value}
    (found : app₀.todos[i]? = some todo) (deleted : todo.deleted = true) :
    app.todos[i]? = some todo := by
  refine run.since (fun _ s => s.todos[i]? = some todo) earlier ?_ ?_
  · intro s' upto
    rw [run_unique upto run₀]
    exact found
  · intro _ s action s' _ _ kept _ taken
    exact (next_stepped taken).keeps_deleted kept deleted

omit [DecidableEq Value] in
/-- The ids ascend with the positions. -/
theorem Tracks.ascending (tracks : Tracks trace app) :
    app.todos.Pairwise fun earlier later => earlier.id < later.id := by
  apply List.pairwise_iff_getElem.mpr
  intro i j low high order
  have own := (tracks.record i _ (List.getElem?_eq_getElem low)).own
  have own' := (tracks.record j _ (List.getElem?_eq_getElem high)).own
  rw [own, own']
  exact Nat.succ_lt_succ order

omit [DecidableEq Value] in
theorem Tracks.listed (tracks : Tracks trace app) {todo : Todo Value}
    (member : todo ∈ app.todos) :
    RecordOf trace todo.id todo ∧ 1 ≤ todo.id ∧ todo.id ≤ created trace := by
  obtain ⟨i, low, rfl⟩ := List.getElem_of_mem member
  have record := tracks.record i _ (List.getElem?_eq_getElem low)
  have own := record.own
  rw [tracks.counted] at low
  rw [own]
  exact ⟨record, Nat.le_add_left 1 i, low⟩

omit [DecidableEq Value] in
/-- An id that was given out addresses its own record. -/
theorem Tracks.stored (tracks : Tracks trace app) {id : Nat}
    (range : 1 ≤ id ∧ id ≤ created trace) :
    ∃ todo, app.todos[id - 1]? = some todo ∧ RecordOf trace id todo := by
  have bound : id - 1 < app.todos.length := by
    rw [tracks.counted]
    omega
  have found := List.getElem?_eq_getElem bound
  have record := tracks.record (id - 1) _ found
  rw [Nat.sub_add_cancel range.1] at record
  exact ⟨_, found, record⟩

/-- What ReadTodo returns is the record of its id. -/
theorem Tracks.readTodo (tracks : Tracks trace app) {id : Nat} {todo : Todo Value}
    {app' : App Value}
    (done : perform MAX_TODOS TODO_VALUES app (.ReadTodo id) = .ok (.todo (some todo), app')) :
    app' = app ∧ app.todos[id - 1]? = some todo ∧ RecordOf trace id todo ∧
      todo.deleted = false := by
  obtain ⟨positive, other, found, acted⟩ := chosen_ok done
  split_ifs at acted with kept
  · obtain ⟨same, unchanged⟩ := Prod.mk.inj (Except.ok.inj acted)
    obtain rfl := Option.some.inj (Returned.todo.inj same)
    have record := tracks.record (id - 1) other found
    rw [Nat.sub_add_cancel positive] at record
    exact ⟨unchanged.symm, found, record, kept⟩
  · obtain ⟨same, -⟩ := Prod.mk.inj (Except.ok.inj acted)
    cases same

/-- ReadTodo answers for every id that was given out, with nothing once it is deleted. -/
theorem Tracks.readable (tracks : Tracks trace app) {id : Nat}
    (range : 1 ≤ id ∧ id ≤ created trace) :
    ∃ answer, perform MAX_TODOS TODO_VALUES app (.ReadTodo id) = .ok (.todo answer, app) ∧
      (answer = none ↔ .DeleteTodo id ∈ trace) := by
  obtain ⟨todo, found, record⟩ := tracks.stored range
  cases deleted : todo.deleted with
  | true =>
      refine ⟨none, ?_, iff_of_true rfl (record.deleted.mp deleted)⟩
      simp [perform, chosen, range.1, found, deleted]
  | false =>
      refine ⟨some todo, ?_, iff_of_false (Option.some_ne_none todo) ?_⟩
      · simp [perform, chosen, range.1, found, deleted]
      · rw [← record.deleted, deleted]
        exact Bool.false_ne_true

omit [DecidableEq Value] in
/-- The page of ListTodo: the ids that were created and not deleted. -/
theorem Tracks.page (tracks : Tracks trace app) (id : Nat) :
    (∃ todo ∈ app.todos.filter fun t => !t.deleted, todo.id = id) ↔
      (1 ≤ id ∧ id ≤ created trace) ∧ .DeleteTodo id ∉ trace := by
  constructor
  · rintro ⟨todo, member, rfl⟩
    obtain ⟨member, kept⟩ := List.mem_filter.mp member
    obtain ⟨record, range⟩ := tracks.listed member
    refine ⟨range, fun deleted => ?_⟩
    simp [record.deleted.mpr deleted] at kept
  · rintro ⟨range, kept⟩
    obtain ⟨todo, found, record⟩ := tracks.stored range
    have shown : todo.deleted ≠ true := fun deleted => kept (record.deleted.mp deleted)
    exact ⟨todo, List.mem_filter.mpr ⟨List.mem_of_getElem? found, by simpa using shown⟩,
      record.own⟩

/-- Identity, pin, deletion, reading and listing over every run of the specification. -/
theorem todo_records (run : Run (system MAX_TODOS TODO_VALUES) anyStep trace app) :
    ((∀ (i : Nat) todo, app.todos[i]? = some todo → todo.id = i + 1) ∧
      app.next_id = app.todos.length + 1 ∧
      ∀ action app', next MAX_TODOS TODO_VALUES app action = .ok app' →
        ∀ (i : Nat) todo, app.todos[i]? = some todo → action.target ≠ some (i + 1) →
          app'.todos[i]? = some todo) ∧
    (∀ (i j : Nat) (todo other : Todo Value), app.todos[i]? = some todo →
      app.todos[j]? = some other → todo.showsPin → other.showsPin → i = j) ∧
    (∀ past app₀, past <:+ trace → Run (system MAX_TODOS TODO_VALUES) anyStep past app₀ →
      ∀ (i : Nat) (todo : Todo Value), app₀.todos[i]? = some todo → todo.deleted = true →
        app.todos[i]? = some todo ∧
        perform MAX_TODOS TODO_VALUES app (.ReadTodo (i + 1)) = .ok (.todo none, app)) ∧
    (∀ id todo app', perform MAX_TODOS TODO_VALUES app (.ReadTodo id) =
        .ok (.todo (some todo), app') →
      app' = app ∧ app.todos[id - 1]? = some todo ∧ todo.id = id ∧ todo.deleted = false ∧
        valueOf id trace = some todo.value ∧ todo.pinned = pinnedOf id trace) ∧
    (∀ id, 1 ≤ id ∧ id ≤ created trace →
      ∃ answer, perform MAX_TODOS TODO_VALUES app (.ReadTodo id) = .ok (.todo answer, app) ∧
        (answer = none ↔ .DeleteTodo id ∈ trace)) ∧
    ∃ page, perform MAX_TODOS TODO_VALUES app .ListTodo = .ok (.todos page, app) ∧
      (page.Pairwise fun earlier later => earlier.id < later.id) ∧
      (∀ id, (∃ todo ∈ page, todo.id = id) ↔
        (1 ≤ id ∧ id ≤ created trace) ∧ .DeleteTodo id ∉ trace) ∧
      ∀ todo ∈ page, app.todos[todo.id - 1]? = some todo ∧ todo.deleted = false ∧
        valueOf todo.id trace = some todo.value ∧ todo.pinned = pinnedOf todo.id trace := by
  have tracks := tracks_run run
  refine ⟨⟨fun i todo found => (tracks.record i todo found).own, tracks.counter, ?_⟩,
    tracks.one, ?_, ?_, fun id range => tracks.readable range, _, rfl,
    tracks.ascending.filter _, tracks.page, ?_⟩
  · intro action app' done i todo found elsewhere
    exact (next_stepped done).keeps_other found elsewhere
  · intro past app₀ earlier run₀ i todo found deleted
    have stays := deleted_stays run earlier run₀ found deleted
    refine ⟨stays, ?_⟩
    simp [perform, chosen, stays, deleted]
  · intro id todo app' done
    obtain ⟨unchanged, found, record, kept⟩ := tracks.readTodo done
    exact ⟨unchanged, found, record.own, kept, record.value, record.pinned⟩
  · intro todo member
    obtain ⟨member, kept⟩ := List.mem_filter.mp member
    obtain ⟨record, -⟩ := tracks.listed member
    refine ⟨?_, by simpa using kept, record.value, record.pinned⟩
    obtain ⟨i, found⟩ := List.mem_iff_getElem?.mp member
    rw [(tracks.record i todo found).own]
    exact found

/-- A pinned todo is deleted while pinned, and another one is pinned and updated. -/
def pinnedTwice : List (Action String) :=
  [.UpdateTodo 2 "A", .PinTodo 2, .DeleteTodo 1, .PinTodo 1, .CreateTodo "B", .CreateTodo "A"]

theorem todo_records_pinned_twice :
    ∃ app : App String, reached Init (next 3 ["A", "B"]) pinnedTwice = .ok app ∧
      app.todos = [⟨1, "A", true, true⟩, ⟨2, "A", false, true⟩] ∧
      ∃ page, perform 3 ["A", "B"] app .ListTodo = .ok (.todos page, app) ∧
        ∀ id, (∃ todo ∈ page, todo.id = id) ↔
          (1 ≤ id ∧ id ≤ created pinnedTwice) ∧ .DeleteTodo id ∉ pinnedTwice := by
  refine ⟨_, rfl, by decide, ?_⟩
  obtain ⟨page, listed, -, ids, -⟩ := (todo_records (run_of_reached
    (rfl : reached Init (next 3 ["A", "B"]) pinnedTwice = .ok _))).2.2.2.2.2
  exact ⟨page, listed, ids⟩

end Runs

end FizzbeeMbt.TodoApp
