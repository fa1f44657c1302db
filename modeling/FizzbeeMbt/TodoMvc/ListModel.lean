import FizzbeeMbt.TodoMvc.Spec

/-! What the todo list is to its user: titles with a completed flag, in order, seen
through a filter and addressed by their position in what the filter shows. -/

namespace FizzbeeMbt.TodoMvc

abbrev Item := String × Bool

def FilterState.shows (filter : FilterState) (item : Item) : Bool :=
  match filter with
  | .All => true
  | .Active => !item.2
  | .Completed => item.2

structure ListState where
  items : List Item
  nowShowing : FilterState
  deriving DecidableEq, Repr

/-- `item` is the entry number `index` among those that the current filter matches. -/
structure Place (l : ListState) (index : Nat) (before : List Item) (item : Item)
    (after : List Item) : Prop where
  split : l.items = before ++ item :: after
  shown : l.nowShowing.shows item = true
  position : (before.filter l.nowShowing.shows).length = index

inductive ListStep : ListState → Action → ListState → Prop
  | adds {l : ListState} (title : String) (filled : title ≠ "") :
      ListStep l (.UserAddsItem title) { l with items := l.items ++ [(title, false)] }
  | switches {l : ListState} (new_filter : FilterState) :
      ListStep l (.UserSwitchesFilter new_filter) { l with nowShowing := new_filter }
  | toggles {l : ListState} {index : Nat} {before after : List Item} {item : Item}
      (place : Place l index before item after) :
      ListStep l (.UserTogglesItem index) { l with items := before ++ (item.1, !item.2) :: after }
  | togglesAll {l : ListState} :
      ListStep l .UserTogglesAll
        { l with items := l.items.map fun item => (item.1, l.items.any fun other => !other.2) }
  | deletes {l : ListState} {index : Nat} {before after : List Item} {item : Item}
      (place : Place l index before item after) :
      ListStep l (.UserDeletesItem index) { l with items := before ++ after }
  | edits {l : ListState} {index : Nat} {before after : List Item} {item : Item}
      (place : Place l index before item after) (new_text : String) (filled : new_text ≠ "") :
      ListStep l (.UserEditsItem index new_text)
        { l with items := before ++ (new_text, item.2) :: after }
  | erases {l : ListState} {index : Nat} {before after : List Item} {item : Item}
      (place : Place l index before item after) :
      ListStep l (.UserEditsItem index "") { l with items := before ++ after }
  | clears {l : ListState} :
      ListStep l .UserClearsCompleted { l with items := l.items.filter fun item => !item.2 }

/-- The list can take the action: `MAX_ITEMS` bounds its length and the items `added` up
to now, and an index is one of what the filter shows. -/
def ListState.Allows (MAX_ITEMS : Nat) (TODO_STRINGS : List String) (l : ListState)
    (added : Nat) : Action → Prop
  | .UserAddsItem title =>
      (l.items.length < MAX_ITEMS ∧ added < MAX_ITEMS) ∧ title ∈ TODO_STRINGS ∧ title ≠ ""
  | .UserSwitchesFilter new_filter => l.items ≠ [] ∧ l.nowShowing ≠ new_filter
  | .UserTogglesItem index => index < (l.items.filter l.nowShowing.shows).length
  | .UserTogglesAll => l.items ≠ []
  | .UserDeletesItem index => index < (l.items.filter l.nowShowing.shows).length
  | .UserEditsItem index new_text =>
      index < (l.items.filter l.nowShowing.shows).length ∧
        (new_text ∈ TODO_STRINGS ∨ new_text = "")
  | .UserClearsCompleted => ∃ item ∈ l.items, item.2 = true

section Places

theorem split_unique (p : Item → Bool) (before before' after after' : List Item)
    (item item' : Item) (same : before ++ item :: after = before' ++ item' :: after')
    (shown : p item = true) (shown' : p item' = true)
    (position : (before.filter p).length = (before'.filter p).length) :
    before = before' ∧ item = item' ∧ after = after' := by
  induction before generalizing before' with
  | nil =>
      cases before' with
      | nil => exact ⟨rfl, List.cons.inj same⟩
      | cons head rest =>
          obtain ⟨rfl, -⟩ := List.cons.inj same
          simp [shown] at position
  | cons first before ih =>
      cases before' with
      | nil =>
          obtain ⟨rfl, -⟩ := List.cons.inj same
          simp [shown'] at position
      | cons head rest =>
          obtain ⟨rfl, tail⟩ := List.cons.inj same
          have position' : (before.filter p).length = (rest.filter p).length := by
            by_cases counted : p first = true
            · simpa [counted] using position
            · simpa [counted] using position
          obtain ⟨rfl, rfl, rfl⟩ := ih rest tail position'
          exact ⟨rfl, rfl, rfl⟩

theorem Place.unique {l : ListState} {index : Nat} {before before' after after' : List Item}
    {item item' : Item} (place : Place l index before item after)
    (place' : Place l index before' item' after') :
    before = before' ∧ item = item' ∧ after = after' :=
  split_unique l.nowShowing.shows before before' after after' item item'
    (place.split.symm.trans place'.split) place.shown place'.shown
    (place.position.trans place'.position.symm)

/-- An action of the user determines the list that follows. -/
theorem ListStep.unique {l l₁ l₂ : ListState} {action : Action}
    (first : ListStep l action l₁) (second : ListStep l action l₂) : l₁ = l₂ := by
  cases first with
  | adds title filled => cases second; rfl
  | switches new_filter => cases second; rfl
  | togglesAll => cases second; rfl
  | clears => cases second; rfl
  | toggles place =>
      cases second with
      | toggles place' =>
          obtain ⟨rfl, rfl, rfl⟩ := place.unique place'
          rfl
  | deletes place =>
      cases second with
      | deletes place' =>
          obtain ⟨rfl, rfl, rfl⟩ := place.unique place'
          rfl
  | edits place new_text filled =>
      cases second with
      | edits place' _ _ =>
          obtain ⟨rfl, rfl, rfl⟩ := place.unique place'
          rfl
      | erases _ => exact absurd rfl filled
  | erases place =>
      cases second with
      | edits _ _ filled => exact absurd rfl filled
      | erases place' =>
          obtain ⟨rfl, rfl, rfl⟩ := place.unique place'
          rfl

theorem mem_replaced {before after : List Item} {item other : Item} :
    other ∈ before ++ item :: after ↔ other = item ∨ other ∈ before ++ after := by
  simp only [List.mem_append, List.mem_cons]
  tauto

theorem Place.mem {l : ListState} {index : Nat} {before after : List Item} {item other : Item}
    (place : Place l index before item after) :
    other ∈ l.items ↔ other = item ∨ other ∈ before ++ after := by
  rw [place.split]
  exact mem_replaced

/-- No action makes a title empty. -/
theorem ListStep.titled {l l' : ListState} {action : Action} (step : ListStep l action l')
    (titled : ∀ item ∈ l.items, item.1 ≠ "") : ∀ item ∈ l'.items, item.1 ≠ "" := by
  intro item member
  cases step with
  | adds title filled =>
      rcases List.mem_append.mp member with old | new
      · exact titled item old
      · obtain rfl := List.mem_singleton.mp new
        exact filled
  | switches new_filter => exact titled item member
  | togglesAll =>
      obtain ⟨old, listed, rfl⟩ := List.mem_map.mp member
      exact titled old listed
  | clears => exact titled item (List.mem_filter.mp member).1
  | @toggles _ _ _ old place =>
      rcases mem_replaced.mp member with rfl | other
      · exact titled old (place.mem.mpr (Or.inl rfl))
      · exact titled item (place.mem.mpr (Or.inr other))
  | deletes place => exact titled item (place.mem.mpr (Or.inr member))
  | edits place new_text filled =>
      rcases mem_replaced.mp member with rfl | other
      · exact filled
      · exact titled item (place.mem.mpr (Or.inr other))
  | erases place => exact titled item (place.mem.mpr (Or.inr member))

end Places

section Screen

/-- What the test adapter compares of the view; ids are ignored. -/
structure Screen where
  nowShowing : FilterState
  shownTodos : List Item
  activeTodoCount : Nat
  toggleAllStatus : ToggleAllStatus
  clearButtonShown : Bool
  deriving DecidableEq, Repr

def TodoView.getState (view : TodoView) : Screen :=
  { nowShowing := view.nowShowing
    shownTodos := view.shownTodos.map fun t => (t.title, t.completed)
    activeTodoCount := view.activeTodoCount
    toggleAllStatus := view.toggleAllStatus
    clearButtonShown := view.clearButtonShown }

def ListState.screen (l : ListState) : Screen :=
  { nowShowing := l.nowShowing
    shownTodos := l.items.filter l.nowShowing.shows
    activeTodoCount := (l.items.filter fun item => !item.2).length
    toggleAllStatus :=
      if l.items = [] then .NotShown
      else if l.items.any fun item => !item.2 then .Unchecked
      else .Checked
    clearButtonShown := l.items.any fun item => item.2 }

end Screen

end FizzbeeMbt.TodoMvc
