import FizzbeeMbt.TodoApp.Records

/-! The states that runs of `todo.fizz` reach: those that the invariants allow, all of
them. -/

namespace FizzbeeMbt.TodoApp

open FizzbeeMbt.Runs

variable {Value : Type} [DecidableEq Value] {MAX_TODOS : Nat} {TODO_VALUES : List Value}

section Stock

/-- The list is as long, and its values are those, that the specification allows. -/
structure Stocked (MAX_TODOS : Nat) (TODO_VALUES : List Value) (app : App Value) : Prop where
  short : app.todos.length ≤ MAX_TODOS
  values : ∀ todo ∈ app.todos, todo.value ∈ TODO_VALUES

/-- What the `require` and `any` of the writing actions ensure. -/
theorem next_guarded {app app' : App Value} {action : Action Value}
    (done : next MAX_TODOS TODO_VALUES app action = .ok app') :
    (∀ value, action = .CreateTodo value →
      app.todos.length < MAX_TODOS ∧ value ∈ TODO_VALUES) ∧
    ∀ id value, action = .UpdateTodo id value → value ∈ TODO_VALUES := by
  unfold next at done
  constructor
  · rintro value rfl
    by_contra refused
    simp only [perform, if_neg refused] at done
    cases done
  · rintro id value rfl
    cases performed : perform MAX_TODOS TODO_VALUES app (.UpdateTodo id value) with
    | error e => simp [performed] at done
    | ok result =>
        obtain ⟨-, todo, -, acted⟩ := chosen_ok performed
        split_ifs at acted with enabled
        exact enabled.2.1

theorem stocked_run {trace : List (Action Value)} {app : App Value}
    (run : Run (system MAX_TODOS TODO_VALUES) anyStep trace app) :
    Stocked MAX_TODOS TODO_VALUES app := by
  refine run.invariant (fun _ app => Stocked MAX_TODOS TODO_VALUES app) ?_ ?_
  · rintro _ rfl
    exact ⟨Nat.zero_le _, fun todo member => by cases member⟩
  · intro trace app action app' _ stocked _ taken
    obtain ⟨creates, updates⟩ := next_guarded taken
    cases next_stepped taken with
    | creates value =>
        obtain ⟨room, allowed⟩ := creates value rfl
        constructor
        · rw [List.length_append]
          exact room
        · intro todo member
          rcases List.mem_append.mp member with old | new
          · exact stocked.values todo old
          · rw [List.mem_singleton.mp new]
            exact allowed
    | reads id => exact stocked
    | lists => exact stocked
    | @assigns action id old new positive found kept what =>
        have listed : old ∈ app.todos := List.mem_of_getElem? found
        constructor
        · rw [List.length_set]
          exact stocked.short
        · intro todo member
          rcases List.mem_or_eq_of_mem_set member with other | rfl
          · exact stocked.values todo other
          · cases what with
            | updates _ value => exact updates id value rfl
            | _ => exact stocked.values old listed

end Stock

/-- What the invariants say of a state. -/
structure Possible (MAX_TODOS : Nat) (TODO_VALUES : List Value) (app : App Value) : Prop where
  stocked : Stocked MAX_TODOS TODO_VALUES app
  counter : app.next_id = app.todos.length + 1
  ids : ∀ (i : Nat) todo, app.todos[i]? = some todo → todo.id = i + 1
  one : ∀ (i j : Nat) (todo other : Todo Value), app.todos[i]? = some todo →
    app.todos[j]? = some other → todo.showsPin → other.showsPin → i = j

section Steps

def Reached (MAX_TODOS : Nat) (TODO_VALUES : List Value) (app : App Value) : Prop :=
  ∃ trace, Run (system MAX_TODOS TODO_VALUES) anyStep trace app

theorem Reached.next {app app' : App Value} (reached : Reached MAX_TODOS TODO_VALUES app)
    (action : Action Value)
    (done : perform MAX_TODOS TODO_VALUES app action = .ok (.nothing, app')) :
    Reached MAX_TODOS TODO_VALUES app' := by
  obtain ⟨trace, run⟩ := reached
  refine ⟨action :: trace, run.step ?_ trivial⟩
  show TodoApp.next MAX_TODOS TODO_VALUES app action = .ok app'
  simp only [TodoApp.next, done]

variable {before after : List (Todo Value)} {todo : Todo Value} {n : Nat}

omit [DecidableEq Value] in
@[simp] theorem chosen_here (act : Todo Value → Outcome Value) :
    chosen ⟨before ++ todo :: after, n⟩ (before.length + 1) act = act todo := by
  simp [chosen]

omit [DecidableEq Value] in
@[simp] theorem assign_here (changed : Todo Value) :
    assign ⟨before ++ todo :: after, n⟩ (before.length + 1) changed =
      .ok (.nothing, ⟨before ++ changed :: after, n⟩) := by
  simp [assign]

theorem Reached.create {todos : List (Todo Value)}
    (reached : Reached MAX_TODOS TODO_VALUES ⟨todos, n⟩) (value : Value)
    (room : todos.length < MAX_TODOS) (offered : value ∈ TODO_VALUES) :
    Reached MAX_TODOS TODO_VALUES ⟨todos ++ [⟨n, value, false, false⟩], n + 1⟩ :=
  reached.next (.CreateTodo value) (by simp [perform, room, offered])

theorem Reached.delete (reached : Reached MAX_TODOS TODO_VALUES ⟨before ++ todo :: after, n⟩)
    (kept : todo.deleted = false) :
    Reached MAX_TODOS TODO_VALUES ⟨before ++ { todo with deleted := true } :: after, n⟩ :=
  reached.next (.DeleteTodo (before.length + 1)) (by simp [perform, kept])

theorem Reached.pin (reached : Reached MAX_TODOS TODO_VALUES ⟨before ++ todo :: after, n⟩)
    (kept : todo.deleted = false) (free : ∀ t ∈ before ++ todo :: after, ¬t.showsPin) :
    Reached MAX_TODOS TODO_VALUES ⟨before ++ { todo with pinned := true } :: after, n⟩ := by
  have open' : ((before ++ todo :: after).any fun t => t.pinned && !t.deleted) = false := by
    rw [List.any_eq_false]
    intro t member
    simpa [Todo.showsPin] using free t member
  exact reached.next (.PinTodo (before.length + 1)) (by simp [perform, open', kept])

end Steps

section Reachable

/-- The record without the pin that it shows. -/
def Todo.unshown (todo : Todo Value) : Todo Value :=
  if todo.pinned && !todo.deleted then { todo with pinned := false } else todo

omit [DecidableEq Value] in
theorem unshown_silent (todo : Todo Value) : ¬ todo.unshown.showsPin := by
  unfold Todo.unshown
  split_ifs with shows
  · simp [Todo.showsPin]
  · simpa [Todo.showsPin] using shows

omit [DecidableEq Value] in
theorem unshown_eq {todo : Todo Value} (silent : ¬ todo.showsPin) : todo.unshown = todo := by
  unfold Todo.unshown
  rw [if_neg]
  simpa [Todo.showsPin] using silent

omit [DecidableEq Value] in
theorem map_unshown {todos : List (Todo Value)} (silent : ∀ todo ∈ todos, ¬ todo.showsPin) :
    todos.map Todo.unshown = todos :=
  (List.map_congr_left fun todo member => unshown_eq (silent todo member)).trans (List.map_id' _)

/-- Records are created in their order, and each that is deleted, pinned or not, is so
before the next one is created. -/
theorem reached_unshown {todos : List (Todo Value)} (short : todos.length ≤ MAX_TODOS)
    (values : ∀ todo ∈ todos, todo.value ∈ TODO_VALUES)
    (ids : ∀ (i : Nat) todo, todos[i]? = some todo → todo.id = i + 1) :
    Reached MAX_TODOS TODO_VALUES ⟨todos.map Todo.unshown, todos.length + 1⟩ := by
  induction todos using List.reverseRecOn with
  | nil => exact ⟨[], .start rfl⟩
  | append_singleton todos todo ih =>
      rw [List.length_append, List.length_singleton] at short ⊢
      have id : todo.id = todos.length + 1 := ids _ todo List.getElem?_concat_length
      have offered := values todo (List.mem_append_right _ List.mem_cons_self)
      have earlier := ih (Nat.le_of_succ_le short)
        (fun t member => values t (List.mem_append_left _ member))
        (fun i t found => ids i t (by
          rw [List.getElem?_append_left (List.getElem?_eq_some_iff.mp found).1]
          exact found))
      have created := earlier.create todo.value (by rwa [List.length_map]) offered
      have silent : ∀ t ∈ todos.map Todo.unshown ++ [⟨todos.length + 1, todo.value, false, false⟩],
          ¬ t.showsPin := by
        intro t member
        rcases List.mem_append.mp member with old | new
        · obtain ⟨t, -, rfl⟩ := List.mem_map.mp old
          exact unshown_silent t
        · rw [List.mem_singleton.mp new]
          simp [Todo.showsPin]
      obtain ⟨number, value, deleted, pinned⟩ := todo
      obtain rfl : number = todos.length + 1 := id
      rw [List.map_append, List.map_singleton]
      cases deleted with
      | false => cases pinned <;> exact created
      | true =>
          cases pinned with
          | false => exact created.delete rfl
          | true => exact (created.pin rfl silent).delete rfl

omit [DecidableEq Value] in
/-- Around the record that shows a pin no other one does. -/
theorem Possible.alone {app : App Value} (possible : Possible MAX_TODOS TODO_VALUES app)
    {before after : List (Todo Value)} {todo : Todo Value}
    (split : app.todos = before ++ todo :: after) (shows : todo.showsPin) :
    ∀ t ∈ before ++ after, ¬ t.showsPin := by
  have here : app.todos[before.length]? = some todo := by simp [split]
  intro t member other
  rcases List.mem_append.mp member with early | late
  · obtain ⟨i, found⟩ := List.mem_iff_getElem?.mp early
    have low := (List.getElem?_eq_some_iff.mp found).1
    have listed : app.todos[i]? = some t := by
      rw [split, List.getElem?_append_left low, found]
    have same := possible.one i before.length t todo listed here other shows
    omega
  · obtain ⟨i, found⟩ := List.mem_iff_getElem?.mp late
    have listed : app.todos[before.length + (i + 1)]? = some t := by
      rw [split, List.getElem?_append_right (Nat.le_add_right _ _), Nat.add_sub_cancel_left,
        List.getElem?_cons_succ, found]
    have same := possible.one _ before.length t todo listed here other shows
    omega

theorem Possible.reached {app : App Value} (possible : Possible MAX_TODOS TODO_VALUES app) :
    Reached MAX_TODOS TODO_VALUES app := by
  have unshown := reached_unshown possible.stocked.short possible.stocked.values possible.ids
  obtain ⟨todos, next_id⟩ := app
  obtain rfl : next_id = todos.length + 1 := possible.counter
  by_cases pinned : ∃ todo ∈ todos, todo.showsPin
  · obtain ⟨todo, member, shows⟩ := pinned
    obtain ⟨before, after, rfl⟩ := List.append_of_mem member
    have alone := possible.alone rfl shows
    rw [List.map_append, List.map_cons,
      map_unshown fun t listed => alone t (List.mem_append_left _ listed),
      map_unshown fun t listed => alone t (List.mem_append_right _ listed)] at unshown
    have free : ∀ t ∈ before ++ todo.unshown :: after, ¬ t.showsPin := by
      intro t listed
      rcases List.mem_append.mp listed with early | late
      · exact alone t (List.mem_append_left _ early)
      · rcases List.mem_cons.mp late with rfl | late
        · exact unshown_silent todo
        · exact alone t (List.mem_append_right _ late)
    have pinned := unshown.pin (by simp [Todo.unshown, shows.1, shows.2]) free
    have again : ({ todo.unshown with pinned := true } : Todo Value) = todo := by
      obtain ⟨id, value, deleted, pinned⟩ := todo
      obtain ⟨rfl, rfl⟩ := shows
      rfl
    rwa [again] at pinned
  · have silent : ∀ todo ∈ todos, ¬ todo.showsPin :=
      fun todo member shows => pinned ⟨todo, member, shows⟩
    rwa [map_unshown silent] at unshown

/-- Runs reach exactly the states in which ids are positions, values are offered ones, at
most `MAX_TODOS` records were created and at most one shows a pin. An assertion holds
throughout the specification exactly when these facts imply it. -/
theorem reachable_iff_possible (app : App Value) :
    (∃ trace, Run (system MAX_TODOS TODO_VALUES) anyStep trace app) ↔
      Possible MAX_TODOS TODO_VALUES app := by
  constructor
  · rintro ⟨trace, run⟩
    have tracks := tracks_run run
    exact ⟨stocked_run run, tracks.counter, fun i todo found => (tracks.record i todo found).own,
      tracks.one⟩
  · exact Possible.reached

end Reachable

end FizzbeeMbt.TodoApp
