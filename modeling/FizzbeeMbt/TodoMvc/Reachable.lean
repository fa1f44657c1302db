import FizzbeeMbt.TodoMvc.Refinement
import Mathlib.Data.List.Perm.Subperm

/-! The states that runs of `todomvc.fizz` reach: those that the invariants allow, all of
them. -/

namespace FizzbeeMbt.TodoMvc

open FizzbeeMbt.Dicts FizzbeeMbt.Runs

section Stock

variable {MAX_ITEMS : Nat} {TODO_STRINGS : List String}

/-- A title of the list was there before, or is one that the action brings. -/
theorem ListStep.origin {l l' : ListState} {action : Action} (step : ListStep l action l')
    {item : Item} (member : item ∈ l'.items) :
    (∃ old ∈ l.items, old.1 = item.1) ∨ action = .UserAddsItem item.1 ∨
      ∃ index, action = .UserEditsItem index item.1 := by
  cases step with
  | adds title filled =>
      rcases List.mem_append.mp member with old | new
      · exact Or.inl ⟨item, old, rfl⟩
      · rw [List.mem_singleton.mp new]
        exact Or.inr (Or.inl rfl)
  | switches new_filter => exact Or.inl ⟨item, member, rfl⟩
  | togglesAll =>
      obtain ⟨old, listed, rfl⟩ := List.mem_map.mp member
      exact Or.inl ⟨old, listed, rfl⟩
  | clears => exact Or.inl ⟨item, (List.mem_filter.mp member).1, rfl⟩
  | @toggles _ _ _ old place =>
      rcases mem_replaced.mp member with rfl | other
      · exact Or.inl ⟨old, place.mem.mpr (Or.inl rfl), rfl⟩
      · exact Or.inl ⟨item, place.mem.mpr (Or.inr other), rfl⟩
  | deletes place => exact Or.inl ⟨item, place.mem.mpr (Or.inr member), rfl⟩
  | edits place new_text filled =>
      rcases mem_replaced.mp member with rfl | other
      · exact Or.inr (Or.inr ⟨_, rfl⟩)
      · exact Or.inl ⟨item, place.mem.mpr (Or.inr other), rfl⟩
  | erases place => exact Or.inl ⟨item, place.mem.mpr (Or.inr member), rfl⟩

/-- Only an added item makes the list longer. -/
theorem ListStep.length_le {l l' : ListState} {action : Action} (step : ListStep l action l') :
    l'.items.length ≤ l.items.length ∨
      (∃ title, action = .UserAddsItem title) ∧ l'.items.length = l.items.length + 1 := by
  cases step with
  | adds title filled => exact Or.inr ⟨⟨title, rfl⟩, by simp⟩
  | switches new_filter => exact Or.inl (Nat.le_refl _)
  | togglesAll => exact Or.inl (by simp)
  | clears => exact Or.inl (List.length_filter_le _ _)
  | toggles place => exact Or.inl (by simp [place.split])
  | deletes place => exact Or.inl (by simp [place.split])
  | edits place new_text filled => exact Or.inl (by simp [place.split])
  | erases place => exact Or.inl (by simp [place.split])

/-- The list is as long, and its titles are those, that the specification allows. -/
structure Stocked (MAX_ITEMS : Nat) (TODO_STRINGS : List String) (s : State) : Prop where
  short : (listOf s).items.length ≤ MAX_ITEMS
  titles : ∀ item ∈ (listOf s).items, item.1 ∈ TODO_STRINGS

/-- What the `require` and `any` of the writing actions ensure. -/
theorem perform_guarded {s s' : State} {action : Action}
    (done : perform MAX_ITEMS TODO_STRINGS s action = .ok s') :
    (∀ title, action = .UserAddsItem title →
      s.model.todos.values.length < MAX_ITEMS ∧ title ∈ TODO_STRINGS) ∧
    ∀ index title, action = .UserEditsItem index title → title ≠ "" → title ∈ TODO_STRINGS := by
  constructor
  · rintro title rfl
    simp only [perform] at done
    split_ifs at done with enabled
    exact ⟨enabled.1, enabled.2.1⟩
  · rintro index title rfl filled
    simp only [perform, chosen] at done
    split at done
    · cases done
    · split_ifs at done with offered
      rcases List.mem_append.mp offered with listed | empty
      · exact listed
      · exact absurd (List.mem_singleton.mp empty) filled

theorem stocked_run {trace : List Action} {s : State}
    (run : Run (system MAX_ITEMS TODO_STRINGS) anyStep trace s) :
    Stocked MAX_ITEMS TODO_STRINGS s := by
  refine run.invariant (fun _ s => Stocked MAX_ITEMS TODO_STRINGS s) ?_ ?_
  · rintro _ rfl
    exact ⟨Nat.zero_le _, fun item member => by cases member⟩
  · intro trace s action s' upto stocked _ done
    have sound := sound_run upto
    have after := (sound.step done).titled
    obtain ⟨adds, edits⟩ := perform_guarded done
    have list : ListStep (listOf s) action (listOf s') := by
      rcases perform_stepped sound.rendered sound.numbered action with stopped | ⟨_, ended, stepped⟩
      · exact absurd (stopped.symm.trans done) (by simp)
      · obtain rfl := Except.ok.inj (ended.symm.trans done)
        exact stepped.list
    constructor
    · rcases list.length_le with shorter | ⟨⟨title, rfl⟩, longer⟩
      · exact shorter.trans stocked.short
      · have room := (adds title rfl).1
        have same : (listOf s).items.length = s.model.todos.values.length := List.length_map _
        omega
    · intro item member
      rcases list.origin member with ⟨old, listed, same⟩ | rfl | ⟨index, rfl⟩
      · exact same ▸ stocked.titles old listed
      · exact (adds _ rfl).2
      · exact edits index _ rfl (after item member)

end Stock

section Possible

/-- What the invariants say of a state. -/
structure Possible (MAX_ITEMS : Nat) (TODO_STRINGS : List String) (s : State) : Prop where
  rendered : Rendered s
  numbered : Numbered s.model
  titles : ∀ entry ∈ s.model.todos.entries, entry.2.title ∈ TODO_STRINGS ∧ entry.2.title ≠ ""
  room : s.model.next_id ≤ MAX_ITEMS
  offered : s.model.next_id ≠ 0 → ∃ title ∈ TODO_STRINGS, title ≠ ""
  filter : s.model.next_id = 0 → s.view.nowShowing = .All

/-- Model and filter determine a rendered state. -/
theorem rendered_unique {s s' : State} (rendered : Rendered s) (rendered' : Rendered s')
    (entries : s.model.todos.entries = s'.model.todos.entries)
    (next_id : s.model.next_id = s'.model.next_id)
    (filter : s.view.nowShowing = s'.view.nowShowing) : s = s' := by
  obtain ⟨⟨⟨es, distinct⟩, n⟩, ⟨f, shown, active, status, clear⟩⟩ := s
  obtain ⟨⟨⟨es', distinct'⟩, n'⟩, ⟨f', shown', active', status', clear'⟩⟩ := s'
  obtain rfl : es = es' := entries
  obtain rfl : n = n' := next_id
  obtain rfl : f = f' := filter
  obtain rfl : shown = shown' := rendered.shown.trans rendered'.shown.symm
  obtain rfl : active = active' := rendered.active.trans rendered'.active.symm
  obtain rfl : clear = clear' := by
    rw [Bool.eq_iff_iff]
    exact rendered.clear.trans rendered'.clear.symm
  obtain rfl : status' = status := by
    cases status with
    | NotShown => exact rendered'.notShown.mpr (rendered.notShown.mp rfl)
    | Unchecked => exact rendered'.unchecked.mpr (rendered.unchecked.mp rfl)
    | Checked => exact rendered'.checked.mpr (rendered.checked.mp rfl)
  rfl

variable {MAX_ITEMS : Nat} {TODO_STRINGS : List String}

/-- The action, if it ends, replaces the todos and no more. -/
def Rewrites (s : State) (outcome : Outcome) : Prop :=
  ∀ s', outcome = .ok s' → ∃ todos, s' = withTodos s todos

theorem rewrites_ok (s : State) (todos : Dict Nat Todo) : Rewrites s (.ok (withTodos s todos)) :=
  fun _ done => ⟨todos, (Except.ok.inj done).symm⟩

theorem rewrites_error (s : State) (e : Stop) : Rewrites s (.error e) :=
  fun _ done => by cases done

theorem toggle_rewrites (s : State) (target_id : Nat) : Rewrites s (Toggle s target_id) := by
  unfold Toggle
  split
  · exact rewrites_error s _
  · exact rewrites_ok s _

theorem toggleAll_rewrites (s : State) (checked : Bool) : Rewrites s (ToggleAll s checked) := by
  unfold ToggleAll
  split
  · exact rewrites_error s _
  · exact rewrites_ok s _

theorem destroy_rewrites (s : State) (target_id : Nat) : Rewrites s (Destroy s target_id) := by
  unfold Destroy
  split
  · exact rewrites_error s _
  · exact rewrites_ok s _

theorem save_rewrites (s : State) (target_id : Nat) (new_text : String) :
    Rewrites s (Save s target_id new_text) := by
  unfold Save
  split
  · exact rewrites_error s _
  · exact rewrites_ok s _

theorem chosen_rewrites (s : State) (index : Nat) {act : Todo → Outcome}
    (rewrites : ∀ target, Rewrites s (act target)) : Rewrites s (chosen s index act) := by
  unfold chosen
  split
  · exact rewrites_error s _
  · exact rewrites _

/-- What the actions do to the counter and to the filter. -/
theorem perform_counts {s s' : State} {action : Action}
    (done : perform MAX_ITEMS TODO_STRINGS s action = .ok s') :
    (s'.model.next_id = s.model.next_id ∧
        (s'.view.nowShowing = s.view.nowShowing ∨ s.model.todos.values ≠ [])) ∨
      (s'.model.next_id = s.model.next_id + 1 ∧ s.model.next_id < MAX_ITEMS ∧
        ∃ title ∈ TODO_STRINGS, title ≠ "") := by
  have same : ∀ outcome, Rewrites s outcome → outcome = .ok s' →
      s'.model.next_id = s.model.next_id ∧
        (s'.view.nowShowing = s.view.nowShowing ∨ s.model.todos.values ≠ []) := by
    intro outcome rewrites ended
    obtain ⟨todos, rfl⟩ := rewrites s' ended
    exact ⟨rfl, Or.inl rfl⟩
  cases action with
  | UserAddsItem title =>
      simp only [perform, AddTodo] at done
      split_ifs at done with enabled room
      obtain rfl := Except.ok.inj done
      exact Or.inr ⟨rfl, room, title, enabled.2⟩
  | UserSwitchesFilter new_filter =>
      simp only [perform] at done
      split_ifs at done with enabled
      obtain rfl := Except.ok.inj done
      exact Or.inl ⟨rfl, Or.inr enabled.1⟩
  | UserTogglesItem index =>
      exact Or.inl (same _ (chosen_rewrites s index fun target => toggle_rewrites s _) done)
  | UserTogglesAll =>
      simp only [perform] at done
      split_ifs at done
      exact Or.inl (same _ (toggleAll_rewrites s _) done)
  | UserDeletesItem index =>
      exact Or.inl (same _ (chosen_rewrites s index fun target => destroy_rewrites s _) done)
  | UserEditsItem index new_text =>
      refine Or.inl (same _ (chosen_rewrites s index fun target => ?_) done)
      split_ifs
      · exact save_rewrites s _ _
      · exact destroy_rewrites s _
      · exact rewrites_error s _
  | UserClearsCompleted =>
      simp only [perform] at done
      split_ifs at done
      exact Or.inl (same _ (rewrites_ok s _) done)

/-- With no id given out there is no todo. -/
theorem Numbered.started {m : TodoModel} (numbered : Numbered m) (some_todo : m.todos.values ≠ []) :
    m.next_id ≠ 0 := by
  intro zero
  apply some_todo
  apply List.eq_nil_iff_forall_not_mem.mpr
  intro t member
  obtain ⟨entry, listed, -⟩ := List.mem_map.mp member
  have below := numbered.below entry.1 (List.mem_map_of_mem listed)
  omega

theorem possible_run {trace : List Action} {s : State}
    (run : Run (system MAX_ITEMS TODO_STRINGS) anyStep trace s) :
    Possible MAX_ITEMS TODO_STRINGS s := by
  have counts : s.model.next_id ≤ MAX_ITEMS ∧
      (s.model.next_id ≠ 0 → ∃ title ∈ TODO_STRINGS, title ≠ "") ∧
        (s.model.next_id = 0 → s.view.nowShowing = .All) := by
    apply run.invariant (fun _ s => s.model.next_id ≤ MAX_ITEMS ∧
      (s.model.next_id ≠ 0 → ∃ title ∈ TODO_STRINGS, title ≠ "") ∧
        (s.model.next_id = 0 → s.view.nowShowing = .All))
    · rintro _ rfl
      exact ⟨Nat.zero_le _, fun differ => absurd rfl differ, fun _ => rfl⟩
    · rintro trace s action s' upto ⟨room, offered, filter⟩ _ done
      rcases perform_counts done with ⟨same, kept⟩ | ⟨grown, below, titled⟩
      · rw [same]
        refine ⟨room, offered, fun zero => ?_⟩
        rcases kept with kept | filled
        · exact kept.trans (filter zero)
        · exact absurd zero ((sound_run upto).numbered.started filled)
      · rw [grown]
        exact ⟨below, fun _ => titled, fun zero => absurd zero (Nat.succ_ne_zero _)⟩
  have sound := sound_run run
  have stocked := stocked_run run
  refine ⟨sound.rendered, sound.numbered, ?_, counts.1, counts.2.1, counts.2.2⟩
  intro entry member
  have listed : entryItem entry ∈ (listOf s).items := by
    rw [items_eq]
    exact List.mem_map_of_mem member
  exact ⟨stocked.titles _ listed, sound.titled _ listed⟩

end Possible

section Reachable

variable (MAX_ITEMS : Nat) (TODO_STRINGS : List String)

/-- A run reaches a state with these entries, this counter and this filter. -/
def Reaches (entries : List (Nat × Todo)) (next_id : Nat) (filter : FilterState) : Prop :=
  ∃ trace s, Run (system MAX_ITEMS TODO_STRINGS) anyStep trace s ∧
    s.model.todos.entries = entries ∧ s.model.next_id = next_id ∧ s.view.nowShowing = filter

variable {MAX_ITEMS TODO_STRINGS} {entries : List (Nat × Todo)} {n id : Nat}
  {filter : FilterState} {t : Todo}

theorem Reaches.add (reaches : Reaches MAX_ITEMS TODO_STRINGS entries n filter)
    (room : n < MAX_ITEMS) {title : String} (offered : title ∈ TODO_STRINGS) (filled : title ≠ "") :
    Reaches MAX_ITEMS TODO_STRINGS (entries ++ [(n, ⟨n, title, false⟩)]) (n + 1) filter := by
  obtain ⟨trace, s, run, rfl, rfl, rfl⟩ := reaches
  have numbered := (sound_run run).numbered
  have short : s.model.todos.values.length < MAX_ITEMS := by
    have distinct : s.model.todos.keys.Nodup := s.model.todos.distinct
    have within : s.model.todos.keys ⊆ List.range s.model.next_id :=
      fun key member => List.mem_range.mpr (numbered.below key member)
    have bound := (distinct.subperm within).length_le
    simp only [Dict.keys, List.length_map, List.length_range] at bound
    simp only [Dict.values, List.length_map]
    omega
  have done : perform MAX_ITEMS TODO_STRINGS s (.UserAddsItem title) =
      .ok (Refresh { s with
        model :=
          { todos := s.model.todos.set s.model.next_id ⟨s.model.next_id, title, false⟩
            next_id := s.model.next_id + 1 } }) := by
    rw [perform, if_pos ⟨short, offered, filled⟩, AddTodo, if_pos room]
  exact ⟨_, _, run.step done trivial, assign_new _ _ _ (numbered.add title).1, rfl, rfl⟩

/-- The last todo that is shown, and the entry it stands for. -/
theorem last_shown {s : State} (rendered : Rendered s) (numbered : Numbered s.model)
    (split : s.model.todos.entries = entries ++ [(id, t)])
    (shows : s.view.nowShowing.shows t.item = true) :
    t.id = id ∧ ∃ index : Nat, s.view.shownTodos[index]? = some t := by
  refine ⟨numbered.own (id, t) (by simp [split]), ?_⟩
  have shown : t ∈ s.view.shownTodos := by
    rw [rendered.shown]
    exact List.mem_filter.mpr ⟨by simp [Dict.values, split], shows⟩
  exact List.mem_iff_getElem?.mp shown

theorem Reaches.toggle (reaches : Reaches MAX_ITEMS TODO_STRINGS (entries ++ [(id, t)]) n filter)
    (shows : filter.shows t.item = true) :
    Reaches MAX_ITEMS TODO_STRINGS (entries ++ [(id, ⟨t.id, t.title, !t.completed⟩)]) n filter := by
  obtain ⟨trace, s, run, split, rfl, rfl⟩ := reaches
  have sound := sound_run run
  obtain ⟨rfl, index, found⟩ := last_shown sound.rendered sound.numbered split shows
  have done : perform MAX_ITEMS TODO_STRINGS s (.UserTogglesItem index) =
      .ok (withTodos s (s.model.todos.set t.id ⟨t.id, t.title, !t.completed⟩)) := by
    simp only [perform, chosen, found, Toggle, Dict.get?_split split]
  exact ⟨_, _, run.step done trivial, Dict.set_split split _, rfl, rfl⟩

theorem Reaches.destroy (reaches : Reaches MAX_ITEMS TODO_STRINGS (entries ++ [(id, t)]) n filter)
    (shows : filter.shows t.item = true) :
    Reaches MAX_ITEMS TODO_STRINGS entries n filter := by
  obtain ⟨trace, s, run, split, rfl, rfl⟩ := reaches
  have sound := sound_run run
  obtain ⟨rfl, index, found⟩ := last_shown sound.rendered sound.numbered split shows
  obtain ⟨todos, popped, left⟩ := Dict.pop?_split split
  have done : perform MAX_ITEMS TODO_STRINGS s (.UserDeletesItem index) =
      .ok (withTodos s todos) := by
    simp only [perform, chosen, found, Destroy, popped]
  exact ⟨_, _, run.step done trivial, left.trans (List.append_nil _), rfl, rfl⟩

theorem Reaches.switch (reaches : Reaches MAX_ITEMS TODO_STRINGS entries n filter)
    (some_todo : entries ≠ []) (new_filter : FilterState) :
    Reaches MAX_ITEMS TODO_STRINGS entries n new_filter := by
  by_cases same : filter = new_filter
  · exact same ▸ reaches
  · obtain ⟨trace, s, run, rfl, rfl, rfl⟩ := reaches
    have filled : s.model.todos.values ≠ [] := by simpa [Dict.values] using some_todo
    have done : perform MAX_ITEMS TODO_STRINGS s (.UserSwitchesFilter new_filter) =
        .ok (Refresh { s with view := { s.view with nowShowing := new_filter } }) := by
      rw [perform, if_pos ⟨filled, same⟩]
    exact ⟨_, _, run.step done trivial, rfl, rfl, rfl⟩

/-- Items added and destroyed again use up ids. -/
theorem Reaches.spend (reaches : Reaches MAX_ITEMS TODO_STRINGS entries n .All) {later : Nat}
    (upto : n ≤ later) (room : later ≤ MAX_ITEMS) {title : String}
    (offered : title ∈ TODO_STRINGS) (filled : title ≠ "") :
    Reaches MAX_ITEMS TODO_STRINGS entries later .All := by
  induction later, upto using Nat.le_induction with
  | base => exact reaches
  | succ later upto ih =>
      exact ((ih (Nat.le_of_succ_le room)).add room offered filled).destroy rfl

/-- Entries are added in their order; the ids between them are used up. -/
theorem reaches_entries {entries : List (Nat × Todo)} (own : ∀ entry ∈ entries, entry.2.id = entry.1)
    (increasing : (entries.map Prod.fst).Pairwise (· < ·))
    (below : ∀ key ∈ entries.map Prod.fst, key < n)
    (titles : ∀ entry ∈ entries, entry.2.title ∈ TODO_STRINGS ∧ entry.2.title ≠ "")
    (room : n ≤ MAX_ITEMS) (offered : n ≠ 0 → ∃ title ∈ TODO_STRINGS, title ≠ "") :
    Reaches MAX_ITEMS TODO_STRINGS entries n .All := by
  induction entries using List.reverseRecOn generalizing n with
  | nil =>
      have start : Reaches MAX_ITEMS TODO_STRINGS [] 0 .All := ⟨[], Init, .start rfl, rfl, rfl, rfl⟩
      by_cases zero : n = 0
      · exact zero ▸ start
      · obtain ⟨title, listed, filled⟩ := offered zero
        exact start.spend (Nat.zero_le n) room listed filled
  | append_singleton entries entry ih =>
      obtain ⟨id, t⟩ := entry
      obtain rfl : t.id = id := own (id, t) (by simp)
      obtain ⟨listed, filled⟩ := titles (t.id, t) (by simp)
      have inside : t.id < n := below t.id (by simp)
      rw [List.map_append, List.pairwise_append] at increasing
      have earlier : Reaches MAX_ITEMS TODO_STRINGS entries t.id .All := by
        apply ih
        · exact fun entry member => own entry (List.mem_append_left _ member)
        · exact increasing.1
        · exact fun key member => increasing.2.2 key member t.id (by simp)
        · exact fun entry member => titles entry (List.mem_append_left _ member)
        · omega
        · exact fun _ => ⟨t.title, listed, filled⟩
      have added := earlier.add (by omega) listed filled
      have placed : Reaches MAX_ITEMS TODO_STRINGS (entries ++ [(t.id, t)]) (t.id + 1) .All := by
        obtain ⟨id, title, completed⟩ := t
        cases completed with
        | false => exact added
        | true => exact added.toggle rfl
      exact placed.spend inside room listed filled

theorem Possible.reaches {s : State} (possible : Possible MAX_ITEMS TODO_STRINGS s) :
    Reaches MAX_ITEMS TODO_STRINGS s.model.todos.entries s.model.next_id s.view.nowShowing := by
  obtain ⟨-, numbered, titles, room, offered, filter⟩ := possible
  by_cases empty : s.model.todos.entries = []
  · cases next_id : s.model.next_id with
    | zero =>
        rw [filter next_id, empty]
        exact ⟨[], Init, .start rfl, rfl, rfl, rfl⟩
    | succ m =>
        obtain ⟨title, listed, filled⟩ := offered (by omega)
        rw [empty]
        have nothing : Reaches MAX_ITEMS TODO_STRINGS [] m .All :=
          reaches_entries (by simp) List.Pairwise.nil (by simp) (by simp) (by omega)
            fun _ => ⟨title, listed, filled⟩
        -- The filter can only be switched while there is a todo, which it must show to go.
        have one := nothing.add (by omega) listed filled
        cases s.view.nowShowing with
        | All => exact one.destroy rfl
        | Active => exact (one.switch (by simp) .Active).destroy rfl
        | Completed => exact ((one.toggle rfl).switch (by simp) .Completed).destroy rfl
  · exact (reaches_entries numbered.own numbered.increasing numbered.below titles room
      offered).switch empty _

/-- Runs reach exactly the states whose view renders the model, whose ids are keys in order
below the counter, which is at most `MAX_ITEMS`, and whose titles are offered ones; only
before the first item is the filter always `All`. An assertion holds throughout the
specification exactly when these facts imply it. -/
theorem reached_iff_possible (s : State) :
    (∃ trace, Run (system MAX_ITEMS TODO_STRINGS) anyStep trace s) ↔
      Possible MAX_ITEMS TODO_STRINGS s := by
  constructor
  · rintro ⟨trace, run⟩
    exact possible_run run
  · intro possible
    obtain ⟨trace, s', run, entries, next_id, filter⟩ := possible.reaches
    obtain rfl : s' = s :=
      rendered_unique (sound_run run).rendered possible.rendered entries next_id filter
    exact ⟨trace, run⟩

end Reachable

end FizzbeeMbt.TodoMvc
