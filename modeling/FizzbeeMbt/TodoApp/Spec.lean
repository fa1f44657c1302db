import FizzbeeMbt.Lib.Runs

/-! The specification `todo.fizz`: the role TodoApp. -/

namespace FizzbeeMbt.TodoApp

open FizzbeeMbt.Runs

variable {Value : Type} [DecidableEq Value]

structure Todo (Value : Type) where
  id : Nat
  value : Value
  deleted : Bool
  pinned : Bool
  deriving DecidableEq, Repr

structure App (Value : Type) where
  todos : List (Todo Value)
  next_id : Nat
  deriving DecidableEq, Repr

def Init : App Value := ⟨[], 1⟩

/-- An action with the values its `any` statements chose. -/
inductive Action (Value : Type) where
  | CreateTodo (value : Value)
  | UpdateTodo (id : Nat) (value : Value)
  | DeleteTodo (id : Nat)
  | ReadTodo (id : Nat)
  | ListTodo
  | PinTodo (id : Nat)
  | UnPinTodo (id : Nat)
  deriving DecidableEq, Repr

inductive Returned (Value : Type) where
  | nothing
  | todo (found : Option (Todo Value))
  | todos (page : List (Todo Value))
  deriving DecidableEq, Repr

/-- A `require` that fails, or an `any` without the chosen value. -/
inductive Stop where
  | disabled
  deriving DecidableEq, Repr

abbrev Outcome (Value : Type) := Except Stop (Returned Value × App Value)

/-- `todos[id-1]` for an id that `any range(1, len(todos) + 1)` can choose. -/
def chosen (app : App Value) (id : Nat) (act : Todo Value → Outcome Value) : Outcome Value :=
  if 1 ≤ id then
    match app.todos[id - 1]? with
    | none => .error .disabled
    | some todo => act todo
  else .error .disabled

/-- An assignment to a field of `todos[id-1]`. -/
def assign (app : App Value) (id : Nat) (todo : Todo Value) : Outcome Value :=
  .ok (.nothing, { app with todos := app.todos.set (id - 1) todo })

def perform (MAX_TODOS : Nat) (TODO_VALUES : List Value) (app : App Value) :
    Action Value → Outcome Value
  | .CreateTodo value =>
      if app.todos.length < MAX_TODOS ∧ value ∈ TODO_VALUES then
        .ok (.nothing,
          { todos := app.todos ++ [⟨app.next_id, value, false, false⟩]
            next_id := app.next_id + 1 })
      else .error .disabled
  | .UpdateTodo id value =>
      chosen app id fun todo =>
        if todo.deleted = false ∧ value ∈ TODO_VALUES ∧ value ≠ todo.value then
          assign app id { todo with value := value }
        else .error .disabled
  | .DeleteTodo id =>
      chosen app id fun todo =>
        if todo.deleted = false then assign app id { todo with deleted := true }
        else .error .disabled
  | .ReadTodo id =>
      chosen app id fun todo =>
        if todo.deleted = false then .ok (.todo (some todo), app) else .ok (.todo none, app)
  | .ListTodo => .ok (.todos (app.todos.filter fun t => !t.deleted), app)
  | .PinTodo id =>
      if app.todos.any fun t => t.pinned && !t.deleted then .error .disabled
      else
        chosen app id fun todo =>
          if todo.deleted = false then assign app id { todo with pinned := true }
          else .error .disabled
  | .UnPinTodo id =>
      chosen app id fun todo =>
        if todo.deleted = false then assign app id { todo with pinned := false }
        else .error .disabled

def next (MAX_TODOS : Nat) (TODO_VALUES : List Value) (app : App Value)
    (action : Action Value) : Except Stop (App Value) :=
  match perform MAX_TODOS TODO_VALUES app action with
  | .error e => .error e
  | .ok (_, app') => .ok app'

/-- The actions are atomic, so a run is a sequence of them. -/
def system (MAX_TODOS : Nat) (TODO_VALUES : List Value) : System (App Value) (Action Value) :=
  .ofNext Init (next MAX_TODOS TODO_VALUES)

end FizzbeeMbt.TodoApp
