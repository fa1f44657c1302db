import FizzbeeMbt.Lib.Keys
import FizzbeeMbt.TodoAdapters.Reports
import FizzbeeMbt.TodoApp.Reachable

/-! What the adapters report of a run of `todo.fizz`: each answer of the specification, as
the string of its records. -/

namespace FizzbeeMbt.TodoAdapters

open FizzbeeMbt.Runs

section Pages

/-- What Playwright tells of `#todoModalContent`: the text content of the title, and the
class attribute of each pin icon. -/
structure Modal where
  title : Option Text
  pinIcon : List (Option Text)

/-- The cards of the page, and the modal that a click on one of them opens. -/
structure Page where
  cards : List Card
  isVisible : Card → Bool
  modal : Card → Modal

end Pages

namespace Ts

end Ts

namespace Java

end Java

section Answers

/-- A record of the specification, as a record of an adapter. -/
def written (todo : TodoApp.Todo Text) : Ts.TodoRecord :=
  ⟨todo.id, todo.value, todo.deleted, todo.pinned⟩

/-- An answer of the specification, as a string of its records. -/
def rendered : TodoApp.Returned Text → Option Text
  | .nothing => none
  | .todo found => found.map fun todo => Ts.toFizzBeeFormat (written todo)
  | .todos page => some (Ts.toFizzBeeFormatList (page.map written))

end Answers

section Reads

variable {MAX_TODOS : Nat} {TODO_VALUES : List Text} {trace : List (TodoApp.Action Text)}
  {app : TodoApp.App Text} {page : Page} {language : Language}

end Reads

section Renderings

/-- A value that does not run into what follows it. -/
def Unquoted (todo : TodoApp.Todo Text) : Prop := unit '"' ∉ todo.value

/-- The answers of a reading action in a reachable state: a record or none, or a page. -/
def Unquoted.answer : TodoApp.Returned Text → Prop
  | .nothing => False
  | .todo found => ∀ todo ∈ found, Unquoted todo
  | .todos page => ∀ todo ∈ page, Unquoted todo

end Renderings

section Runs

variable {MAX_TODOS : Nat} {TODO_VALUES : List Text} {trace trace' : List (TodoApp.Action Text)}
  {app app' : TodoApp.App Text} {page page' : Page}

end Runs

end FizzbeeMbt.TodoAdapters
