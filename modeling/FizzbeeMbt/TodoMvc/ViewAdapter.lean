import FizzbeeMbt.Lib.Utf16
import FizzbeeMbt.TodoAdapters.Numerals
import FizzbeeMbt.TodoMvc.Reachable

/-! How the test adapter of TodoMVC reads the view off the page: what it reports in the
states that the specification reaches. -/

namespace FizzbeeMbt.TodoMvc

open FizzbeeMbt.Runs FizzbeeMbt.Trim FizzbeeMbt.TodoAdapters FizzbeeMbt.Utf16

section Page

/-- An element `todo-item`: the text content of its label, and its checkbox. -/
structure TodoItem where
  label : Option Text
  isChecked : Bool

/-- What Playwright tells of the page, `none` standing for null; for the two elements
found by their role it stands for a call that throws. -/
structure Page where
  url : Text
  todoItems : List TodoItem
  todoCountVisible : Bool
  todoCount : Option Text
  toggleAllVisible : Option Bool
  toggleAllChecked : Option Bool
  clearCompletedVisible : Option Bool

/-- What is compared with the view of the specification; ids are `IGNORE`d. -/
@[ext]
structure Observed where
  nowShowing : FilterState
  shownTodos : List (Text × Bool)
  activeTodoCount : Int
  toggleAllStatus : ToggleAllStatus
  clearButtonShown : Bool
  deriving DecidableEq

namespace Page

def getNowShowing (page : Page) : FilterState :=
  if lit "#/active" <:+: page.url then .Active
  else if lit "#/completed" <:+: page.url then .Completed
  else .All

def getShownTodos (page : Page) : List (Text × Bool) :=
  page.todoItems.map fun item => (trim Ts.isBlank (item.label.getD []), item.isChecked)

/-- `match(/(\d+)/)`: the first run of digits. -/
def matchDigits (s : Text) : Option Text :=
  match (s.dropWhile fun c => !isDigit c).takeWhile isDigit with
  | [] => none
  | run => some run

/-- `none` where `parseInt` rounds. -/
def getActiveTodoCount (page : Page) : Option Int :=
  if page.todoCountVisible then
    match page.todoCount.bind matchDigits with
    | some digits => Ts.parseInt digits
    | none => some 0
  else some 0

def getToggleAllStatus (page : Page) : ToggleAllStatus :=
  match page.toggleAllVisible with
  | some true =>
      match page.toggleAllChecked with
      | some checked => if checked then .Checked else .Unchecked
      | none => .NotShown
  | _ => .NotShown

def getClearButtonShown (page : Page) : Bool :=
  match page.clearCompletedVisible with
  | some visible => visible
  | none => false

def getState (page : Page) : Option Observed :=
  match page.getActiveTodoCount with
  | none => none
  | some activeTodoCount =>
      some
        { nowShowing := page.getNowShowing
          shownTodos := page.getShownTodos
          activeTodoCount := activeTodoCount
          toggleAllStatus := page.getToggleAllStatus
          clearButtonShown := page.getClearButtonShown }

end Page

end Page

section Shows

/-- A label shows a title, within whatever blanks. -/
def Labels (title : String) (label : Option Text) : Prop :=
  ∃ front back, label = some (front ++ (utf16 title ++ back)) ∧
    (∀ c ∈ front, Ts.isBlank c = true) ∧ ∀ c ∈ back, Ts.isBlank c = true

/-- A text has one number in it, to begin with. -/
def Counts (n : Nat) (text : Option Text) : Prop :=
  ∃ front back, text = some (front ++ (digits n ++ back)) ∧
    (∀ c ∈ front, isDigit c = false) ∧ ∀ c ∈ back.head?, isDigit c = false

/-- The page shows a view: without todos it has no counter and no toggle. -/
structure Shows (view : TodoView) (page : Page) : Prop where
  active : lit "#/active" <:+: page.url ↔ view.nowShowing = .Active
  completed : lit "#/completed" <:+: page.url ↔ view.nowShowing = .Completed
  items : List.Forall₂ (fun t item => Labels t.title item.label ∧ item.isChecked = t.completed)
    view.shownTodos page.todoItems
  todoCountVisible : page.todoCountVisible = true ↔ view.toggleAllStatus ≠ .NotShown
  todoCount : page.todoCountVisible = true → Counts view.activeTodoCount page.todoCount
  toggleAllVisible : page.toggleAllVisible = some (decide (view.toggleAllStatus ≠ .NotShown))
  toggleAllChecked : view.toggleAllStatus ≠ .NotShown →
    page.toggleAllChecked = some (decide (view.toggleAllStatus = .Checked))
  clear : page.clearCompletedVisible = some view.clearButtonShown

def observed (screen : Screen) : Observed where
  nowShowing := screen.nowShowing
  shownTodos := screen.shownTodos.map fun item => (utf16 item.1, item.2)
  activeTodoCount := screen.activeTodoCount
  toggleAllStatus := screen.toggleAllStatus
  clearButtonShown := screen.clearButtonShown

theorem observed_injective : Function.Injective observed := by
  intro screen screen' same
  obtain ⟨filter, todos, count, status, clear⟩ := screen
  obtain ⟨filter', todos', count', status', clear'⟩ := screen'
  simp only [observed, Observed.mk.injEq, Int.natCast_inj] at same
  obtain ⟨filters, shown, counts, statuses, clears⟩ := same
  have coded : Function.Injective fun item : Item => (utf16 item.1, item.2) := by
    rintro ⟨title, flag⟩ ⟨title', flag'⟩ alike
    obtain ⟨titles, flags⟩ := Prod.mk.inj alike
    exact Prod.ext (utf16_injective titles) flags
  rw [filters, coded.list_map shown, counts, statuses, clears]

end Shows

section Reads

variable {view : TodoView} {page : Page}

theorem nowShowing_read (shows : Shows view page) : page.getNowShowing = view.nowShowing := by
  unfold Page.getNowShowing
  simp only [shows.active, shows.completed]
  cases view.nowShowing <;> simp

theorem label_read {title : String} {label : Option Text} (labels : Labels title label)
    (trimmed : Trimmed Ts.isBlank (utf16 title)) :
    trim Ts.isBlank (label.getD []) = utf16 title := by
  obtain ⟨front, back, rfl, before, after⟩ := labels
  exact trim_eq_of_framed rfl before after trimmed

theorem shownTodos_read (shows : Shows view page)
    (trimmed : ∀ t ∈ view.shownTodos, Trimmed Ts.isBlank (utf16 t.title)) :
    page.getShownTodos = view.shownTodos.map fun t => (utf16 t.title, t.completed) := by
  have each := (List.forall₂_and_left _ _).mpr ⟨trimmed, shows.items⟩
  have same : List.Forall₂ (fun t item => (utf16 t.title, t.completed) =
      (trim Ts.isBlank (item.label.getD []), item.isChecked)) view.shownTodos page.todoItems := by
    refine each.imp ?_
    rintro t item ⟨trimmed, labels, checked⟩
    rw [label_read labels trimmed, checked]
  exact (List.forall₂_eq_eq_eq ▸ List.forall₂_map_left_iff.mpr
    (List.forall₂_map_right_iff.mpr same) : _ = _).symm

theorem matchDigits_counts {n : Nat} {front back : Text}
    (before : ∀ c ∈ front, isDigit c = false) (after : ∀ c ∈ back.head?, isDigit c = false) :
    Page.matchDigits (front ++ (digits n ++ back)) = some (digits n) := by
  have among : ∀ c ∈ numeral 0 n, isDigit c = true := fun c member => isDigit_of_mem_numeral member
  change ∀ c ∈ digits n, isDigit c = true at among
  have filled : digits n ≠ [] := numeral_ne_nil 0 n
  have dropped : (front ++ (digits n ++ back)).dropWhile (fun c => !isDigit c) =
      digits n ++ back := by
    rw [List.dropWhile_append_of_pos fun c member => by simp [before c member]]
    cases spelled : digits n with
    | nil => exact absurd spelled filled
    | cons c rest =>
        have first : isDigit c = true := among c (spelled ▸ List.mem_cons_self)
        simp [first]
  have taken : (digits n ++ back).takeWhile isDigit = digits n := by
    rw [List.takeWhile_append_of_pos among]
    cases back with
    | nil => simp
    | cons c rest => simp [after c rfl]
  unfold Page.matchDigits
  rw [dropped, taken]
  cases spelled : digits n with
  | nil => exact absurd spelled filled
  | cons c rest => rfl

theorem activeTodoCount_read (shows : Shows view page)
    (safe : view.activeTodoCount ≤ Ts.MAX_SAFE_INTEGER)
    (empty : view.toggleAllStatus = .NotShown → view.activeTodoCount = 0) :
    page.getActiveTodoCount = some (view.activeTodoCount : Int) := by
  unfold Page.getActiveTodoCount
  split_ifs with visible
  · obtain ⟨front, back, text, before, after⟩ := shows.todoCount visible
    have parsed : Ts.parseInt (digits view.activeTodoCount) = some (view.activeTodoCount : Int) :=
      ts_parseInt_numeral 0 _ safe
    simp only [text, Option.bind_some, matchDigits_counts before after, parsed]
  · have hidden : view.toggleAllStatus = .NotShown := by
      by_contra shown
      exact visible (shows.todoCountVisible.mpr shown)
    rw [empty hidden]
    rfl

theorem toggleAllStatus_read (shows : Shows view page) :
    page.getToggleAllStatus = view.toggleAllStatus := by
  have checked := shows.toggleAllChecked
  unfold Page.getToggleAllStatus
  rw [shows.toggleAllVisible]
  cases status : view.toggleAllStatus with
  | NotShown => simp
  | Unchecked => simp_all
  | Checked => simp_all

/-- A page that shows a view is read as it. -/
theorem getState_read (shows : Shows view page)
    (trimmed : ∀ t ∈ view.shownTodos, Trimmed Ts.isBlank (utf16 t.title))
    (safe : view.activeTodoCount ≤ Ts.MAX_SAFE_INTEGER)
    (empty : view.toggleAllStatus = .NotShown → view.activeTodoCount = 0) :
    page.getState = some (observed view.getState) := by
  have clear : page.getClearButtonShown = view.clearButtonShown := by
    rw [Page.getClearButtonShown, shows.clear]
  simp only [Page.getState, activeTodoCount_read shows safe empty, nowShowing_read shows,
    shownTodos_read shows trimmed, toggleAllStatus_read shows, clear, observed, TodoView.getState,
    List.map_map]
  rfl

end Reads

section Reachable

variable {MAX_ITEMS : Nat} {TODO_STRINGS : List String} {trace trace' : List Action}
  {s s' : State} {page page' : Page}

theorem view_read (run : Run (system MAX_ITEMS TODO_STRINGS) anyStep trace s)
    (trimmed : ∀ title ∈ TODO_STRINGS, Trimmed Ts.isBlank (utf16 title))
    (safe : MAX_ITEMS ≤ Ts.MAX_SAFE_INTEGER) (shows : Shows s.view page) :
    page.getState = some (observed (listOf s).screen) := by
  have rendered := (sound_run run).rendered
  have stocked := stocked_run run
  have short : s.model.todos.values.length ≤ MAX_ITEMS := by
    have bound := stocked.short
    rwa [listOf, List.length_map] at bound
  rw [← rendered.screen]
  apply getState_read shows
  · intro t member
    rw [rendered.shown] at member
    have listed : t.item ∈ (listOf s).items := List.mem_map_of_mem (List.mem_filter.mp member).1
    exact trimmed _ (stocked.titles t.item listed)
  · rw [rendered.active]
    exact (List.length_filter_le _ _).trans (short.trans safe)
  · intro hidden
    rw [rendered.active, rendered.notShown.mp hidden]
    rfl

/-- In every state that the specification reaches with trimmed titles, the adapter reports
what the list of titles and flags looks like under the filter; and pages of two such
states are reported alike exactly when their lists look alike. -/
theorem view_reported (run : Run (system MAX_ITEMS TODO_STRINGS) anyStep trace s)
    (run' : Run (system MAX_ITEMS TODO_STRINGS) anyStep trace' s')
    (trimmed : ∀ title ∈ TODO_STRINGS, Trimmed Ts.isBlank (utf16 title))
    (safe : MAX_ITEMS ≤ Ts.MAX_SAFE_INTEGER) (shows : Shows s.view page)
    (shows' : Shows s'.view page') :
    page.getState = some (observed (listOf s).screen) ∧
      (page.getState = page'.getState ↔ (listOf s).screen = (listOf s').screen) := by
  have read := view_read run trimmed safe shows
  refine ⟨read, ?_⟩
  rw [read, view_read run' trimmed safe shows', Option.some_inj, observed_injective.eq_iff]

/-- The page of a list whose one active item was erased under the filter Active. -/
def erasedPage : Page where
  url := lit "http://localhost:8000/#/active"
  todoItems := []
  todoCountVisible := true
  todoCount := some (lit "0 items left!")
  toggleAllVisible := some true
  toggleAllChecked := some true
  clearCompletedVisible := some true

theorem view_reported_erased :
    erasedPage.getState = some (observed ⟨.Active, [], 0, .Checked, true⟩) := by
  have run := run_of_reached (rfl : reached Init (perform 2 ["a", "b"]) erasedUnderFilter = .ok _)
  have shows : Shows (⟨.Active, [], 0, .Checked, true⟩ : TodoView) erasedPage := by
    have counted : Counts 0 erasedPage.todoCount := by
      refine ⟨[], lit " items left!", by decide +kernel, (fun c member => by cases member), ?_⟩
      have first : (lit " items left!").head? = some (unit ' ') := by simp [lit]
      intro c member
      obtain rfl : unit ' ' = c := Option.some.inj (first.symm.trans member)
      decide
    exact ⟨by decide +kernel, by decide +kernel, .nil, by decide, fun _ => counted, by decide,
      by decide, by decide⟩
  exact (view_reported run run (by decide +kernel) (by decide) shows shows).1

end Reachable

end FizzbeeMbt.TodoMvc
