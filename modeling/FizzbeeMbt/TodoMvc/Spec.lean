import FizzbeeMbt.Lib.Dicts
import FizzbeeMbt.Lib.Runs

/-! The specification `todomvc.fizz`: the roles TodoModel, TodoView and TodoController. -/

namespace FizzbeeMbt.TodoMvc

open FizzbeeMbt.Dicts FizzbeeMbt.Runs

inductive FilterState where
  | All
  | Active
  | Completed
  deriving DecidableEq, Repr

inductive ToggleAllStatus where
  | NotShown
  | Unchecked
  | Checked
  deriving DecidableEq, Repr

structure Todo where
  id : Nat
  title : String
  completed : Bool
  deriving DecidableEq, Repr

structure TodoModel where
  todos : Dict Nat Todo
  next_id : Nat

structure TodoView where
  nowShowing : FilterState
  shownTodos : List Todo
  activeTodoCount : Nat
  toggleAllStatus : ToggleAllStatus
  clearButtonShown : Bool

structure State where
  model : TodoModel
  view : TodoView

def Init : State :=
  ⟨⟨.empty, 0⟩, ⟨.All, [], 0, .NotShown, false⟩⟩

/-- How an action can fail to end: a `require` or an `any` without the chosen value
disables it, a missing key is an error of the specification. -/
inductive Stop where
  | disabled
  | keyError
  deriving DecidableEq, Repr

abbrev Outcome := Except Stop State

section TodoView

def Refresh (s : State) : State :=
  let all_todos := s.model.todos.values
  let shownTodos :=
    match s.view.nowShowing with
    | .All => all_todos
    | .Active => all_todos.filter fun t => !t.completed
    | .Completed => all_todos.filter fun t => t.completed
  let activeTodoCount := (all_todos.filter fun t => !t.completed).length
  let completedCount := all_todos.length - activeTodoCount
  let toggleAllStatus :=
    if all_todos.length = 0 then .NotShown
    else if activeTodoCount ≠ 0 then .Unchecked
    else .Checked
  { s with
    view :=
      { nowShowing := s.view.nowShowing
        shownTodos := shownTodos
        activeTodoCount := activeTodoCount
        toggleAllStatus := toggleAllStatus
        clearButtonShown := decide (0 < completedCount) } }

end TodoView

section TodoModel

def withTodos (s : State) (todos : Dict Nat Todo) : State :=
  Refresh { s with model := { s.model with todos := todos } }

def AddTodo (MAX_ITEMS : Nat) (s : State) (title : String) : Outcome :=
  if s.model.next_id < MAX_ITEMS then
    .ok (Refresh { s with
      model :=
        { todos := s.model.todos.set s.model.next_id ⟨s.model.next_id, title, false⟩
          next_id := s.model.next_id + 1 } })
  else .error .disabled

def Toggle (s : State) (target_id : Nat) : Outcome :=
  match s.model.todos.get? target_id with
  | none => .error .keyError
  | some item =>
      .ok (withTodos s (s.model.todos.set target_id ⟨item.id, item.title, !item.completed⟩))

/-- The loop of `ToggleAll` over the keys that are left. -/
def toggleAllLoop (checked : Bool) : List Nat → Dict Nat Todo → Except Stop (Dict Nat Todo)
  | [], todos => .ok todos
  | id :: rest, todos =>
      match todos.get? id with
      | none => .error .keyError
      | some item => toggleAllLoop checked rest (todos.set id ⟨item.id, item.title, checked⟩)

def ToggleAll (s : State) (checked : Bool) : Outcome :=
  match toggleAllLoop checked s.model.todos.keys s.model.todos with
  | .error e => .error e
  | .ok todos => .ok (withTodos s todos)

def Destroy (s : State) (target_id : Nat) : Outcome :=
  match s.model.todos.pop? target_id with
  | none => .error .keyError
  | some todos => .ok (withTodos s todos)

def Save (s : State) (target_id : Nat) (new_text : String) : Outcome :=
  match s.model.todos.get? target_id with
  | none => .error .keyError
  | some item =>
      .ok (withTodos s (s.model.todos.set target_id ⟨item.id, new_text, item.completed⟩))

def ClearCompleted (s : State) : Outcome :=
  .ok (withTodos s (s.model.todos.keepValues fun t => !t.completed))

end TodoModel

section TodoController

/-- An action of the controller with the values its `any` statements chose. -/
inductive Action where
  | UserAddsItem (title : String)
  | UserSwitchesFilter (new_filter : FilterState)
  | UserTogglesItem (index : Nat)
  | UserTogglesAll
  | UserDeletesItem (index : Nat)
  | UserEditsItem (index : Nat) (new_text : String)
  | UserClearsCompleted
  deriving DecidableEq, Repr

/-- `shownTodos[index]` for an index that `any range(len(shownTodos))` can choose. -/
def chosen (s : State) (index : Nat) (act : Todo → Outcome) : Outcome :=
  match s.view.shownTodos[index]? with
  | none => .error .disabled
  | some target => act target

def perform (MAX_ITEMS : Nat) (TODO_STRINGS : List String) (s : State) : Action → Outcome
  | .UserAddsItem title =>
      if s.model.todos.values.length < MAX_ITEMS ∧ title ∈ TODO_STRINGS ∧ title ≠ "" then
        AddTodo MAX_ITEMS s title
      else .error .disabled
  | .UserSwitchesFilter new_filter =>
      if s.model.todos.values ≠ [] ∧ s.view.nowShowing ≠ new_filter then
        .ok (Refresh { s with view := { s.view with nowShowing := new_filter } })
      else .error .disabled
  | .UserTogglesItem index => chosen s index fun target => Toggle s target.id
  | .UserTogglesAll =>
      if s.view.toggleAllStatus ≠ .NotShown then
        ToggleAll s (s.view.toggleAllStatus = .Unchecked)
      else .error .disabled
  | .UserDeletesItem index => chosen s index fun target => Destroy s target.id
  | .UserEditsItem index new_text =>
      chosen s index fun target =>
        if new_text ∈ TODO_STRINGS ++ [""] then
          if new_text ≠ "" then Save s target.id new_text else Destroy s target.id
        else .error .disabled
  | .UserClearsCompleted =>
      if s.view.clearButtonShown then ClearCompleted s else .error .disabled

end TodoController

/-- The controller's actions are atomic, so a run is a sequence of them. -/
def system (MAX_ITEMS : Nat) (TODO_STRINGS : List String) : System State Action :=
  .ofNext Init (perform MAX_ITEMS TODO_STRINGS)

end FizzbeeMbt.TodoMvc
