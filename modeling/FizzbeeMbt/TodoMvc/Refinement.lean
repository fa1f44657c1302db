import FizzbeeMbt.TodoMvc.ListModel

/-! Reachable states of the specification: the view renders the model, ids address their
own records, and every action acts on the list as its user sees it. -/

namespace FizzbeeMbt.TodoMvc

open FizzbeeMbt.Dicts FizzbeeMbt.Runs

def Todo.item (t : Todo) : Item := (t.title, t.completed)

def listOf (s : State) : ListState := ⟨s.model.todos.values.map Todo.item, s.view.nowShowing⟩

section View

/-- The five fields of the view, as the model determines them. -/
structure Rendered (s : State) : Prop where
  shown : s.view.shownTodos =
    s.model.todos.values.filter fun t => s.view.nowShowing.shows t.item
  active : s.view.activeTodoCount = (s.model.todos.values.filter fun t => !t.completed).length
  notShown : s.view.toggleAllStatus = .NotShown ↔ s.model.todos.values = []
  checked : s.view.toggleAllStatus = .Checked ↔
    s.model.todos.values ≠ [] ∧ ∀ t ∈ s.model.todos.values, t.completed = true
  unchecked : s.view.toggleAllStatus = .Unchecked ↔
    s.model.todos.values ≠ [] ∧ ∃ t ∈ s.model.todos.values, t.completed = false
  clear : s.view.clearButtonShown = true ↔ ∃ t ∈ s.model.todos.values, t.completed = true

theorem active_eq_zero_iff (todos : List Todo) :
    (todos.filter fun t => !t.completed).length = 0 ↔ ∀ t ∈ todos, t.completed = true := by
  simp [List.filter_eq_nil_iff]

theorem completed_pos_iff (todos : List Todo) :
    0 < todos.length - (todos.filter fun t => !t.completed).length ↔
      ∃ t ∈ todos, t.completed = true := by
  have parts := List.length_eq_length_filter_add (l := todos) fun t => t.completed
  have counted : todos.length - (todos.filter fun t => !t.completed).length =
      (todos.filter fun t => t.completed).length := by omega
  rw [counted, List.length_filter_pos_iff]

theorem refresh_rendered (s : State) : Rendered (Refresh s) := by
  have some_active : (∃ t ∈ s.model.todos.values, t.completed = false) ↔
      ¬∀ t ∈ s.model.todos.values, t.completed = true := by
    simp
  constructor
  · simp only [Refresh]
    cases s.view.nowShowing with
    | All => simp [FilterState.shows]
    | Active => rfl
    | Completed => rfl
  · rfl
  · simp only [Refresh, List.length_eq_zero_iff]
    split_ifs <;> simp_all
  · simp only [Refresh, List.length_eq_zero_iff, ne_eq, ← active_eq_zero_iff]
    split_ifs <;> simp_all
  · simp only [Refresh, List.length_eq_zero_iff, ne_eq, some_active, ← active_eq_zero_iff]
    split_ifs <;> simp_all
  · simp only [Refresh, decide_eq_true_eq]
    exact completed_pos_iff _

theorem rendered_init : Rendered Init := by
  constructor <;> simp [Init, Dict.empty, Dict.values]

end View

section Ids

/-- Ids are keys, in increasing order, and none is due to be given out again. -/
structure Numbered (m : TodoModel) : Prop where
  own : ∀ entry ∈ m.todos.entries, entry.2.id = entry.1
  increasing : m.todos.keys.Pairwise (· < ·)
  below : ∀ id ∈ m.todos.keys, id < m.next_id

theorem numbered_init : Numbered Init.model := by
  constructor <;> simp [Init, Dict.empty, Dict.keys]

theorem Numbered.sublist {m : TodoModel} (numbered : Numbered m) {todos : Dict Nat Todo}
    (fewer : todos.entries.Sublist m.todos.entries) : Numbered { m with todos := todos } where
  own entry member := numbered.own entry (fewer.subset member)
  increasing := numbered.increasing.sublist (fewer.map Prod.fst)
  below id member := numbered.below id ((fewer.map Prod.fst).subset member)

/-- Records may change as long as keys and ids stay. -/
theorem Numbered.same_keys {m : TodoModel} (numbered : Numbered m) {todos : Dict Nat Todo}
    (same : todos.keys = m.todos.keys)
    (own : ∀ entry ∈ todos.entries, entry.2.id = entry.1) : Numbered { m with todos := todos } where
  own := own
  increasing := same ▸ numbered.increasing
  below id member := numbered.below id (same ▸ member)

theorem Numbered.replace {m : TodoModel} (numbered : Numbered m)
    {before after : List (Nat × Todo)} {t t' : Todo}
    (split : m.todos.entries = before ++ (t.id, t) :: after) (id : t'.id = t.id) :
    Numbered { m with todos := m.todos.set t.id t' } := by
  have placed := Dict.set_split split t'
  apply numbered.same_keys
  · simp [Dict.keys, placed, split]
  · intro entry member
    rw [placed] at member
    rcases List.mem_append.mp member with early | late
    · exact numbered.own entry (split ▸ List.mem_append_left _ early)
    · rcases List.mem_cons.mp late with rfl | late
      · exact id
      · exact numbered.own entry (split ▸ List.mem_append_right _ (List.mem_cons_of_mem _ late))

theorem Numbered.add {m : TodoModel} (numbered : Numbered m) (title : String) :
    m.next_id ∉ m.todos.keys ∧
      Numbered
        { todos := m.todos.set m.next_id ⟨m.next_id, title, false⟩
          next_id := m.next_id + 1 } := by
  have fresh : m.next_id ∉ m.todos.keys :=
    fun member => Nat.lt_irrefl _ (numbered.below _ member)
  have grown : (m.todos.set m.next_id ⟨m.next_id, title, false⟩).entries =
      m.todos.entries ++ [(m.next_id, ⟨m.next_id, title, false⟩)] := assign_new _ _ _ fresh
  have keys : (m.todos.set m.next_id ⟨m.next_id, title, false⟩).keys =
      m.todos.keys ++ [m.next_id] := by
    simp [Dict.keys, grown]
  refine ⟨fresh, ?_, ?_, ?_⟩
  · intro entry member
    rw [grown] at member
    rcases List.mem_append.mp member with old | new
    · exact numbered.own entry old
    · obtain rfl := List.mem_singleton.mp new
      rfl
  · rw [keys, List.pairwise_append]
    refine ⟨numbered.increasing, List.pairwise_singleton _ _, ?_⟩
    intro id member last new
    obtain rfl := List.mem_singleton.mp new
    exact numbered.below id member
  · intro id member
    rw [keys] at member
    rcases List.mem_append.mp member with old | new
    · exact Nat.lt_succ_of_lt (numbered.below id old)
    · obtain rfl := List.mem_singleton.mp new
      exact Nat.lt_succ_self _

end Ids

section Steps

def entryItem (entry : Nat × Todo) : Item := entry.2.item

theorem items_eq (s : State) : (listOf s).items = s.model.todos.entries.map entryItem := by
  simp only [listOf, Dict.values, List.map_map]
  rfl

theorem listOf_eq {s s' : State} {items : List Item}
    (filter : s'.view.nowShowing = s.view.nowShowing)
    (same : s'.model.todos.entries.map entryItem = items) :
    listOf s' = { listOf s with items := items } := by
  rw [← same, ← items_eq s', listOf, filter]
  rfl

/-- An element of a filtered list, with what stands around it in the list. -/
theorem filter_split {α : Type} (p : α → Bool) (l : List α) (i : Nat) (x : α)
    (found : (l.filter p)[i]? = some x) :
    ∃ before after, l = before ++ x :: after ∧ p x = true ∧ (before.filter p).length = i := by
  induction l generalizing i with
  | nil => simp at found
  | cons y l ih =>
      by_cases kept : p y = true
      · rw [List.filter_cons_of_pos kept] at found
        cases i with
        | zero =>
            obtain rfl : y = x := by simpa using found
            exact ⟨[], l, rfl, kept, rfl⟩
        | succ i =>
            obtain ⟨before, after, rfl, shown, position⟩ := ih i (by simpa using found)
            exact ⟨y :: before, after, rfl, shown, by simp [kept, position]⟩
      · rw [List.filter_cons_of_neg kept] at found
        obtain ⟨before, after, rfl, shown, position⟩ := ih i found
        exact ⟨y :: before, after, rfl, shown, by simp [kept, position]⟩

/-- The todo shown at an index is stored under its id, and it is the list's entry at that
place of the filter. -/
theorem shown_entry {s : State} (rendered : Rendered s) (numbered : Numbered s.model)
    {index : Nat} {target : Todo} (found : s.view.shownTodos[index]? = some target) :
    ∃ before after, s.model.todos.entries = before ++ (target.id, target) :: after ∧
      Place (listOf s) index (before.map entryItem) target.item (after.map entryItem) := by
  rw [rendered.shown, Dict.values, List.filter_map, List.getElem?_map] at found
  obtain ⟨entry, listed, rfl⟩ := Option.map_eq_some_iff.mp found
  obtain ⟨before, after, split, shown, position⟩ := filter_split _ _ _ _ listed
  have id : entry.2.id = entry.1 := numbered.own entry (by simp [split])
  refine ⟨before, after, by rw [split, id], ?_, shown, ?_⟩
  · simp [items_eq, split, entryItem]
  · rw [List.filter_map, List.length_map]
    exact position

def check (checked : Bool) (entry : Nat × Todo) : Nat × Todo :=
  (entry.1, ⟨entry.2.id, entry.2.title, checked⟩)

/-- The loop of ToggleAll passes every key of the dictionary and misses none. -/
theorem toggleAllLoop_rest (checked : Bool) (done rest : List (Nat × Todo)) (d : Dict Nat Todo)
    (split : d.entries = done.map (check checked) ++ rest) :
    ∃ d', toggleAllLoop checked (rest.map Prod.fst) d = .ok d' ∧
      d'.entries = (done ++ rest).map (check checked) := by
  induction rest generalizing done d with
  | nil => exact ⟨d, rfl, by simpa using split⟩
  | cons entry rest ih =>
      obtain ⟨id, item⟩ := entry
      have next : (d.set id ⟨item.id, item.title, checked⟩).entries =
          (done ++ [(id, item)]).map (check checked) ++ rest := by
        simp [Dict.set_split split, check]
      obtain ⟨d', looped, entries⟩ := ih (done ++ [(id, item)]) _ next
      refine ⟨d', ?_, by simpa using entries⟩
      simp only [List.map_cons, toggleAllLoop, Dict.get?_split split]
      exact looped

theorem toggleAll_ok (s : State) (checked : Bool) :
    ∃ todos, ToggleAll s checked = .ok (withTodos s todos) ∧
      todos.entries = s.model.todos.entries.map (check checked) := by
  obtain ⟨todos, looped, entries⟩ :=
    toggleAllLoop_rest checked [] s.model.todos.entries s.model.todos rfl
  refine ⟨todos, ?_, entries⟩
  have whole : toggleAllLoop checked s.model.todos.keys s.model.todos = .ok todos := looped
  rw [ToggleAll, whole]

/-- Where the toggle-all box is shown it is unchecked exactly when a todo is uncompleted. -/
theorem unchecked_eq {s : State} (rendered : Rendered s) :
    decide (s.view.toggleAllStatus = .Unchecked) = (listOf s).items.any fun item => !item.2 := by
  rw [Bool.eq_iff_iff, decide_eq_true_eq, rendered.unchecked]
  simp only [listOf, List.any_map, List.any_eq_true, Function.comp_apply, Todo.item,
    Bool.not_eq_true']
  constructor
  · exact fun both => both.2
  · rintro ⟨t, member, active⟩
    exact ⟨List.ne_nil_of_mem member, t, member, active⟩

structure Stepped (s : State) (action : Action) (s' : State) : Prop where
  rendered : Rendered s'
  numbered : Numbered s'.model
  list : ListStep (listOf s) action (listOf s')

/-- Every action ends by refreshing the view. -/
theorem stepped_refresh {s changed : State} {action : Action} {items : List Item}
    (filter : changed.view.nowShowing = s.view.nowShowing) (numbered : Numbered changed.model)
    (same : changed.model.todos.entries.map entryItem = items)
    (list : ListStep (listOf s) action { listOf s with items := items }) :
    Stepped s action (Refresh changed) := by
  have after : listOf (Refresh changed) = { listOf s with items := items } :=
    listOf_eq filter same
  exact ⟨refresh_rendered changed, numbered, after ▸ list⟩

variable {MAX_ITEMS : Nat} {TODO_STRINGS : List String}

theorem stepped_add {s : State} (numbered : Numbered s.model) (title : String)
    (filled : title ≠ "") :
    Stepped s (.UserAddsItem title)
      (Refresh { s with
        model :=
          { todos := s.model.todos.set s.model.next_id ⟨s.model.next_id, title, false⟩
            next_id := s.model.next_id + 1 } }) := by
  obtain ⟨fresh, next⟩ := numbered.add title
  have grown : (s.model.todos.set s.model.next_id ⟨s.model.next_id, title, false⟩).entries =
      s.model.todos.entries ++ [(s.model.next_id, ⟨s.model.next_id, title, false⟩)] :=
    assign_new _ _ _ fresh
  refine stepped_refresh rfl next ?_ (.adds title filled)
  rw [items_eq, grown]
  simp [entryItem, Todo.item]

/-- An action on a shown todo that stores a new record under its id. -/
theorem stepped_replace {s : State} (numbered : Numbered s.model) {action : Action}
    {before after : List (Nat × Todo)} {t t' : Todo}
    (split : s.model.todos.entries = before ++ (t.id, t) :: after) (id : t'.id = t.id)
    (list : ListStep (listOf s) action
      { listOf s with items := before.map entryItem ++ t'.item :: after.map entryItem }) :
    Stepped s action (withTodos s (s.model.todos.set t.id t')) := by
  refine stepped_refresh rfl (numbered.replace split id) ?_ list
  simp [Dict.set_split split, entryItem]

/-- An action on a shown todo that removes its record. -/
theorem stepped_destroy {s : State} (numbered : Numbered s.model) {action : Action}
    {before after : List (Nat × Todo)} {t : Todo}
    (split : s.model.todos.entries = before ++ (t.id, t) :: after)
    (list : ListStep (listOf s) action
      { listOf s with items := before.map entryItem ++ after.map entryItem }) :
    ∃ s', Destroy s t.id = .ok s' ∧ Stepped s action s' := by
  obtain ⟨todos, popped, left⟩ := Dict.pop?_split split
  refine ⟨withTodos s todos, by rw [Destroy, popped], ?_⟩
  refine stepped_refresh rfl (numbered.sublist ?_) (by simp [left]) list
  rw [left, split]
  exact List.Sublist.append_left (List.sublist_cons_self _ _) before

/-- Every action of the controller is disabled or ends, without a missing key, and then
changes the list as the user sees it change. -/
theorem perform_stepped {s : State} (rendered : Rendered s) (numbered : Numbered s.model)
    (action : Action) :
    perform MAX_ITEMS TODO_STRINGS s action = .error .disabled ∨
      ∃ s', perform MAX_ITEMS TODO_STRINGS s action = .ok s' ∧ Stepped s action s' := by
  cases action with
  | UserAddsItem title =>
      simp only [perform, AddTodo]
      split_ifs with enabled room
      · exact Or.inr ⟨_, rfl, stepped_add numbered title enabled.2.2⟩
      · exact Or.inl rfl
      · exact Or.inl rfl
  | UserSwitchesFilter new_filter =>
      simp only [perform]
      split_ifs with enabled
      · exact Or.inr ⟨_, rfl, refresh_rendered _, numbered, .switches new_filter⟩
      · exact Or.inl rfl
  | UserTogglesItem index =>
      simp only [perform, chosen]
      cases found : s.view.shownTodos[index]? with
      | none => exact Or.inl rfl
      | some target =>
          obtain ⟨before, after, split, place⟩ := shown_entry rendered numbered found
          refine Or.inr ⟨_, by simp only [Toggle, Dict.get?_split split]; rfl, ?_⟩
          exact stepped_replace numbered split rfl (.toggles place)
  | UserTogglesAll =>
      simp only [perform]
      split_ifs with shown
      · obtain ⟨todos, done, entries⟩ := toggleAll_ok s (s.view.toggleAllStatus = .Unchecked)
        refine Or.inr ⟨_, done, ?_⟩
        rw [unchecked_eq rendered] at entries
        refine stepped_refresh rfl (numbered.same_keys ?_ ?_) ?_ .togglesAll
        · simp [Dict.keys, entries, check]
        · intro entry member
          rw [entries] at member
          obtain ⟨old, listed, rfl⟩ := List.mem_map.mp member
          exact numbered.own old listed
        · rw [entries, items_eq, List.map_map, List.map_map]
          rfl
      · exact Or.inl rfl
  | UserDeletesItem index =>
      simp only [perform, chosen]
      cases found : s.view.shownTodos[index]? with
      | none => exact Or.inl rfl
      | some target =>
          obtain ⟨before, after, split, place⟩ := shown_entry rendered numbered found
          exact Or.inr (stepped_destroy numbered split (.deletes place))
  | UserEditsItem index new_text =>
      simp only [perform, chosen]
      cases found : s.view.shownTodos[index]? with
      | none => exact Or.inl rfl
      | some target =>
          obtain ⟨before, after, split, place⟩ := shown_entry rendered numbered found
          simp only
          split_ifs with choice filled
          · refine Or.inr ⟨_, by simp only [Save, Dict.get?_split split]; rfl, ?_⟩
            exact stepped_replace numbered split rfl (.edits place new_text filled)
          · rw [not_not.mp filled]
            exact Or.inr (stepped_destroy numbered split (.erases place))
          · exact Or.inl rfl
  | UserClearsCompleted =>
      simp only [perform, ClearCompleted]
      split_ifs with shown
      · refine Or.inr ⟨_, rfl, stepped_refresh rfl (numbered.sublist List.filter_sublist) ?_ .clears⟩
        rw [items_eq, List.filter_map]
        rfl
      · exact Or.inl rfl

end Steps

section Reachable

variable {MAX_ITEMS : Nat} {TODO_STRINGS : List String}

structure Sound (s : State) : Prop where
  rendered : Rendered s
  numbered : Numbered s.model
  titled : ∀ item ∈ (listOf s).items, item.1 ≠ ""

theorem Sound.step {s s' : State} {action : Action} (sound : Sound s)
    (done : perform MAX_ITEMS TODO_STRINGS s action = .ok s') : Sound s' := by
  rcases perform_stepped sound.rendered sound.numbered action with stopped | ⟨after, ended, stepped⟩
  · rw [stopped] at done
    cases done
  · obtain rfl := Except.ok.inj (ended.symm.trans done)
    exact ⟨stepped.rendered, stepped.numbered, stepped.list.titled sound.titled⟩

theorem sound_run {trace : List Action} {s : State}
    (run : Run (system MAX_ITEMS TODO_STRINGS) anyStep trace s) : Sound s := by
  apply run.invariant (fun _ s => Sound s)
  · rintro s rfl
    exact ⟨rendered_init, numbered_init, fun _ member => by cases member⟩
  · intro trace s action s' _ sound _ done
    exact sound.step done

/-- In every reachable state the view shows what the model holds, under the filter it is
on, and no todo is without a title. -/
theorem view_renders_model {trace : List Action} {s : State}
    (run : Run (system MAX_ITEMS TODO_STRINGS) anyStep trace s) :
    Rendered s ∧ ∀ t ∈ s.model.todos.values, t.title ≠ "" := by
  have sound := sound_run run
  refine ⟨sound.rendered, ?_⟩
  intro t member
  exact sound.titled t.item (List.mem_map_of_mem member)

/-- An edit to the empty string under the filter `Active` that leaves nothing shown of a
list that still has a completed todo. -/
def erasedUnderFilter : List Action :=
  [.UserEditsItem 0 "", .UserSwitchesFilter .Active, .UserTogglesItem 0, .UserAddsItem "b",
    .UserAddsItem "a"]

theorem view_renders_model_erased :
    ∃ s, reached Init (perform 2 ["a", "b"]) erasedUnderFilter = .ok s ∧
      s.view.shownTodos = [] ∧ s.view.clearButtonShown = true ∧ Rendered s := by
  refine ⟨_, rfl, by decide, by decide, ?_⟩
  exact (view_renders_model (run_of_reached
    (rfl : reached Init (perform 2 ["a", "b"]) erasedUnderFilter = .ok _))).1

theorem Rendered.screen {s : State} (rendered : Rendered s) :
    s.view.getState = (listOf s).screen := by
  have shown : s.view.shownTodos.map Todo.item =
      (listOf s).items.filter (listOf s).nowShowing.shows := by
    rw [rendered.shown, listOf, List.filter_map]
    rfl
  have active : s.view.activeTodoCount =
      ((listOf s).items.filter fun item => !item.2).length := by
    rw [rendered.active, listOf, List.filter_map, List.length_map]
    rfl
  have nothing : (listOf s).items = [] ↔ s.model.todos.values = [] := List.map_eq_nil_iff
  have status : s.view.toggleAllStatus =
      if (listOf s).items = [] then .NotShown
      else if (listOf s).items.any fun item => !item.2 then .Unchecked
      else .Checked := by
    rw [← unchecked_eq rendered]
    simp only [decide_eq_true_eq]
    split_ifs with empty unchecked
    · exact rendered.notShown.mpr (nothing.mp empty)
    · exact unchecked
    · have filled : s.view.toggleAllStatus ≠ .NotShown :=
        fun hidden => empty (nothing.mpr (rendered.notShown.mp hidden))
      cases shown : s.view.toggleAllStatus with
      | NotShown => exact absurd shown filled
      | Unchecked => exact absurd shown unchecked
      | Checked => rfl
  have clear : s.view.clearButtonShown = (listOf s).items.any fun item => item.2 := by
    rw [Bool.eq_iff_iff, rendered.clear]
    simp [listOf, Todo.item]
  simp only [TodoView.getState, ListState.screen, ← active, ← status, ← clear, ← shown]
  rfl

theorem shown_present {s : State} (sound : Sound s) (t : Todo)
    (member : t ∈ s.view.shownTodos) : s.model.todos.get? t.id = some t := by
  obtain ⟨index, found⟩ := List.mem_iff_getElem?.mp member
  obtain ⟨before, after, split, -⟩ := shown_entry sound.rendered sound.numbered found
  exact Dict.get?_split split

theorem shown_length {s : State} (rendered : Rendered s) :
    ((listOf s).items.filter (listOf s).nowShowing.shows).length =
      s.view.shownTodos.length := by
  rw [rendered.shown, listOf, List.filter_map, List.length_map]
  rfl

/-- An action on a shown todo is enabled as far as its call on the stored record is. -/
theorem chosen_enabled_iff {s : State} (sound : Sound s) (index : Nat) {act : Todo → Outcome}
    {allowed : Prop} (answers : ∀ target before after,
      s.model.todos.entries = before ++ (target.id, target) :: after →
        ((∃ s', act target = .ok s') ↔ allowed)) :
    (∃ s', chosen s index act = .ok s') ↔
      index < ((listOf s).items.filter (listOf s).nowShowing.shows).length ∧ allowed := by
  rw [shown_length sound.rendered]
  unfold chosen
  cases found : s.view.shownTodos[index]? with
  | none =>
      have outside : ¬index < s.view.shownTodos.length := by simpa using found
      simp [outside]
  | some target =>
      have inside := (List.getElem?_eq_some_iff.mp found).1
      obtain ⟨before, after, split, -⟩ := shown_entry sound.rendered sound.numbered found
      simp only [inside, true_and]
      exact answers target before after split

theorem destroy_ok {s : State} {target : Todo} {before after : List (Nat × Todo)}
    (split : s.model.todos.entries = before ++ (target.id, target) :: after) :
    ∃ s', Destroy s target.id = .ok s' := by
  obtain ⟨todos, popped, -⟩ := Dict.pop?_split split
  exact ⟨withTodos s todos, by rw [Destroy, popped]⟩

/-- In a sound state an action is enabled exactly when the list allows it. -/
theorem enabled_iff_allows {s : State} (sound : Sound s) (action : Action) :
    (∃ s', perform MAX_ITEMS TODO_STRINGS s action = .ok s') ↔
      (listOf s).Allows MAX_ITEMS TODO_STRINGS s.model.next_id action := by
  have rendered := sound.rendered
  have length : (listOf s).items.length = s.model.todos.values.length := List.length_map _
  have nothing : (listOf s).items = [] ↔ s.model.todos.values = [] := List.map_eq_nil_iff
  cases action with
  | UserAddsItem title =>
      simp only [perform, AddTodo, ListState.Allows, length]
      split_ifs with enabled room
      · exact iff_of_true ⟨_, rfl⟩ ⟨⟨enabled.1, room⟩, enabled.2⟩
      · exact iff_of_false (by simp) fun allowed => room allowed.1.2
      · exact iff_of_false (by simp) fun allowed => enabled ⟨allowed.1.1, allowed.2⟩
  | UserSwitchesFilter new_filter =>
      simp only [perform, ListState.Allows, ne_eq, nothing]
      split_ifs with enabled
      · exact iff_of_true ⟨_, rfl⟩ enabled
      · exact iff_of_false (by simp) enabled
  | UserTogglesItem index =>
      have toggled (target : Todo) (before after : List (Nat × Todo))
          (split : s.model.todos.entries = before ++ (target.id, target) :: after) :
          (∃ s', Toggle s target.id = .ok s') ↔ True :=
        iff_of_true ⟨_, by simp only [Toggle, Dict.get?_split split]; rfl⟩ trivial
      simpa only [perform, ListState.Allows, and_true] using
        chosen_enabled_iff sound index toggled
  | UserTogglesAll =>
      simp only [perform, ListState.Allows, ne_eq, nothing, ← rendered.notShown]
      split_ifs with hidden
      · exact iff_of_false (by simp) (not_not.mpr hidden)
      · obtain ⟨todos, done, -⟩ := toggleAll_ok s (s.view.toggleAllStatus = .Unchecked)
        exact iff_of_true ⟨_, done⟩ hidden
  | UserDeletesItem index =>
      have destroyed (target : Todo) (before after : List (Nat × Todo))
          (split : s.model.todos.entries = before ++ (target.id, target) :: after) :
          (∃ s', Destroy s target.id = .ok s') ↔ True := iff_of_true (destroy_ok split) trivial
      simpa only [perform, ListState.Allows, and_true] using
        chosen_enabled_iff sound index destroyed
  | UserEditsItem index new_text =>
      refine chosen_enabled_iff sound index fun target before after split => ?_
      simp only [List.mem_append, List.mem_singleton]
      split_ifs with choice filled
      · exact iff_of_true ⟨_, by simp only [Save, Dict.get?_split split]; rfl⟩ choice
      · exact iff_of_true (destroy_ok split) choice
      · exact iff_of_false (by simp) choice
  | UserClearsCompleted =>
      have clear : (∃ item ∈ (listOf s).items, item.2 = true) ↔
          s.view.clearButtonShown = true := by
        rw [rendered.clear]
        simp [listOf, Todo.item]
      simp only [perform, ListState.Allows, clear]
      split_ifs with shown
      · exact iff_of_true ⟨_, rfl⟩ shown
      · exact iff_of_false (by simp) shown

/-- In every reachable state ids are keys, in order, and never given out again, what is
shown is stored, no action misses a key, each one is enabled exactly when the list of
titles and flags allows it, and then acts on that list alone, which determines its result
and what the view shows. -/
theorem actions_refine_list {trace : List Action} {s : State}
    (run : Run (system MAX_ITEMS TODO_STRINGS) anyStep trace s) :
    Numbered s.model ∧
      (∀ t ∈ s.view.shownTodos, s.model.todos.get? t.id = some t) ∧
        (∀ action, perform MAX_ITEMS TODO_STRINGS s action ≠ .error .keyError) ∧
          (∀ action, (∃ s', perform MAX_ITEMS TODO_STRINGS s action = .ok s') ↔
            (listOf s).Allows MAX_ITEMS TODO_STRINGS s.model.next_id action) ∧
          (∀ action s', perform MAX_ITEMS TODO_STRINGS s action = .ok s' →
            ListStep (listOf s) action (listOf s') ∧
              ∀ l, ListStep (listOf s) action l → l = listOf s') ∧
            s.view.getState = (listOf s).screen := by
  have sound := sound_run run
  have outcome (action : Action) :
      perform MAX_ITEMS TODO_STRINGS s action = .error .disabled ∨
        ∃ s', perform MAX_ITEMS TODO_STRINGS s action = .ok s' ∧ Stepped s action s' :=
    perform_stepped sound.rendered sound.numbered action
  refine ⟨sound.numbered, shown_present sound, ?_, enabled_iff_allows sound, ?_,
    sound.rendered.screen⟩
  · intro action missing
    rcases outcome action with stopped | ⟨s', ended, -⟩
    · rw [missing] at stopped
      cases stopped
    · rw [missing] at ended
      cases ended
  · intro action s' done
    rcases outcome action with stopped | ⟨after, ended, stepped⟩
    · rw [stopped] at done
      cases done
    · obtain rfl := Except.ok.inj (ended.symm.trans done)
      exact ⟨stepped.list, fun l other => other.unique stepped.list⟩

theorem actions_refine_list_erased :
    ∃ s, reached Init (perform 2 ["a", "b"]) erasedUnderFilter = .ok s ∧
      listOf s = ⟨[("a", true)], .Active⟩ ∧ s.view.getState = (listOf s).screen := by
  refine ⟨_, rfl, by decide, ?_⟩
  exact (actions_refine_list (run_of_reached
    (rfl : reached Init (perform 2 ["a", "b"]) erasedUnderFilter = .ok _))).2.2.2.2.2

end Reachable

end FizzbeeMbt.TodoMvc
