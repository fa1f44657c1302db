import FizzbeeMbt.TodoAdapters.Format
import Mathlib.Data.List.Forall2

/-! What the two adapters make of cards whose test ids are numbered: the records in the
order of their ids, and values that differ at most by what each language trims. -/

namespace FizzbeeMbt.TodoAdapters

open FizzbeeMbt.Trim

section Cards

/-- The title of a card, looked up under the number in its test id. -/
def titleOf (n : Int) (card : Card) : Text :=
  (card.textContent (lit "todo-title-" ++ decimal n.natAbs)).getD []

def isPinned (card : Card) : Bool := card.cls.any fun cls => lit "pinned" <:+: cls

/-- What is read of card number `n` where `blank` is trimmed off. -/
def recordOf (blank : UInt16 → Bool) (n : Int) (card : Card) : Ts.TodoRecord :=
  ⟨n.natAbs, stripped blank TITLE_PREFIX (titleOf n card), false, isPinned card⟩

theorem ts_extractTodo {card : Card} {zeros : Nat} {n : Int} (named : card.testid = testId zeros n)
    (safe : n.natAbs ≤ Ts.MAX_SAFE_INTEGER) :
    Ts.extractTodo card = some (recordOf Ts.isBlank n card) := by
  simp only [Ts.extractTodo, named, ts_number_of_testId zeros n safe]
  rfl

theorem java_getValueFromTitle (title : Option Text) :
    Java.getValueFromTitle title = stripped Java.isBlank TITLE_PREFIX (title.getD []) := by
  cases title <;> rfl

/-- A `TreeMap` keeps its keys in order, whatever the order they are put in. -/
theorem put_all (id : Int) (value : Text) (deleted pinned : Bool) :
    Java.TreeMap.put (lit "pinned") (.boolean pinned)
        (Java.TreeMap.put (lit "deleted") (.boolean deleted)
          (Java.TreeMap.put (lit "value") (.string value)
            (Java.TreeMap.put (lit "id") (.integer id) []))) =
      treeMap ⟨id, value, deleted, pinned⟩ := by
  have after : lit "value" ≠ lit "id" ∧ ¬lit "value" < lit "id" := by
    simp [lit, unit, List.cons_lt_cons_iff]
  have first : lit "deleted" ≠ lit "id" ∧ lit "deleted" < lit "id" := by
    simp [lit, unit, List.cons_lt_cons_iff]
  have between : lit "pinned" ≠ lit "deleted" ∧ ¬lit "pinned" < lit "deleted" ∧
      lit "pinned" ≠ lit "id" ∧ ¬lit "pinned" < lit "id" ∧
      lit "pinned" ≠ lit "value" ∧ lit "pinned" < lit "value" := by
    simp [lit, unit, List.cons_lt_cons_iff]
  simp only [Java.TreeMap.put, after, first, between, if_true, if_false, treeMap]

theorem java_extractTodo {card : Card} {zeros : Nat} {n : Int}
    (named : card.testid = testId zeros n) :
    Java.extractTodo card = if n.natAbs ≤ Java.MAX_VALUE
      then some (treeMap (recordOf Java.isBlank n card)) else none := by
  have read := java_number_of_testId zeros n
  by_cases fits : n.natAbs ≤ Java.MAX_VALUE
  · rw [if_pos fits] at read ⊢
    simp only [Java.extractTodo, named, read, put_all, java_getValueFromTitle]
    unfold recordOf isPinned
    cases card.cls <;> rfl
  · rw [if_neg fits] at read ⊢
    simp only [Java.extractTodo, named, read]

theorem getId_treeMap (record : Ts.TodoRecord) : Java.getId (treeMap record) = record.id := by
  have other : (lit "id" == lit "deleted") = false := by simp [lit, unit]
  simp only [Java.getId, treeMap, List.lookup_cons, other, beq_self_eq_true]

end Cards

section Lists

theorem mapM_of_forall₂ {α β γ : Type} {f : α → Option β} {g : γ → β} {models : List γ}
    {items : List α}
    (read : List.Forall₂ (fun model item => f item = some (g model)) models items) :
    items.mapM f = some (models.map g) := by
  induction read with
  | nil => rfl
  | cons first _ ih =>
      rw [List.mapM_cons, first, ih]
      rfl

theorem mapM_eq_none {α β : Type} {f : α → Option β} {items : List α} {item : α}
    (member : item ∈ items) (fails : f item = none) : items.mapM f = none := by
  induction items with
  | nil => cases member
  | cons first items ih =>
      rw [List.mapM_cons]
      rcases List.mem_cons.mp member with rfl | among
      · rw [fails]
        rfl
      · rw [ih among]
        cases f first <;> rfl

section Sorting

variable {ι : Type} {items : List ι} {cards : List Card} (read : ι → Ts.TodoRecord)
  (number : ι → Nat) (numbered : ∀ item, (read item).id = number item)

include numbered

/-- Records that TypeScript reads of numbered items are reported in the order of the numbers. -/
theorem ts_actionListTodo_of_read
    (each : List.Forall₂ (fun item card => Ts.extractTodo card = some (read item)) items cards) :
    Ts.actionListTodo cards = some (Ts.toFizzBeeFormatList
      ((items.insertionSort fun a b => number a ≤ number b).map read)) := by
  have order : ∀ a ∈ items, ∀ b ∈ items,
      number a ≤ number b ↔ (read a).id - (read b).id ≤ 0 := by
    intro a _ b _
    rw [numbered, numbered]
    omega
  rw [Ts.actionListTodo, mapM_of_forall₂ each,
    List.map_insertionSort _ (fun a b : Ts.TodoRecord => a.id - b.id ≤ 0) read items order]

theorem java_actionListTodo_of_read
    (each : List.Forall₂ (fun item card => Java.extractTodo card = some (treeMap (read item)))
      items cards) :
    Java.actionListTodo cards = some (Ts.toFizzBeeFormatList
      ((items.insertionSort fun a b => number a ≤ number b).map read)) := by
  have order : ∀ a ∈ items, ∀ b ∈ items,
      number a ≤ number b ↔ Java.getId (treeMap (read a)) ≤ Java.getId (treeMap (read b)) := by
    intro a _ b _
    rw [getId_treeMap, getId_treeMap, numbered, numbered]
    omega
  calc Java.actionListTodo cards
      = some (Java.toFizzBeeFormatList ((items.map fun item => treeMap (read item)).insertionSort
          fun a b => Java.getId a ≤ Java.getId b)) := by
        rw [Java.actionListTodo, mapM_of_forall₂ each]
    _ = some (Java.toFizzBeeFormatList
          ((items.insertionSort fun a b => number a ≤ number b).map
            fun item => treeMap (read item))) := by
        rw [List.map_insertionSort _ (fun a b => Java.getId a ≤ Java.getId b)
          (fun item => treeMap (read item)) items order]
    _ = some (Ts.toFizzBeeFormatList
          ((items.insertionSort fun a b => number a ≤ number b).map read)) := by
        rw [← java_toFizzBeeFormatList, List.map_map]
        rfl

end Sorting

/-- The cards in the order of their numbers. -/
def byNumber (number : Card → Int) (cards : List Card) : List Card :=
  cards.insertionSort fun a b => (number a).natAbs ≤ (number b).natAbs

variable {number : Card → Int} {cards : List Card}

theorem ts_actionListTodo
    (named : ∀ card ∈ cards, ∃ zeros, card.testid = testId zeros (number card))
    (safe : ∀ card ∈ cards, (number card).natAbs ≤ Ts.MAX_SAFE_INTEGER) :
    Ts.actionListTodo cards = some (Ts.toFizzBeeFormatList
      ((byNumber number cards).map fun card => recordOf Ts.isBlank (number card) card)) := by
  apply ts_actionListTodo_of_read _ (fun card => (number card).natAbs) (fun _ => rfl)
  apply List.forall₂_same.mpr
  intro card member
  obtain ⟨zeros, name⟩ := named card member
  exact ts_extractTodo name (safe card member)

theorem java_actionListTodo
    (named : ∀ card ∈ cards, ∃ zeros, card.testid = testId zeros (number card))
    (fits : ∀ card ∈ cards, (number card).natAbs ≤ Java.MAX_VALUE) :
    Java.actionListTodo cards = some (Ts.toFizzBeeFormatList
      ((byNumber number cards).map fun card => recordOf Java.isBlank (number card) card)) := by
  apply java_actionListTodo_of_read _ (fun card => (number card).natAbs) (fun _ => rfl)
  apply List.forall₂_same.mpr
  intro card member
  obtain ⟨zeros, name⟩ := named card member
  rw [java_extractTodo name, if_pos (fits card member)]

/-- One number beyond an int and Java throws. -/
theorem java_actionListTodo_throws
    (named : ∀ card ∈ cards, ∃ zeros, card.testid = testId zeros (number card)) {card : Card}
    (member : card ∈ cards) (large : Java.MAX_VALUE < (number card).natAbs) :
    Java.actionListTodo cards = none := by
  obtain ⟨zeros, name⟩ := named card member
  have fails : Java.extractTodo card = none := by
    rw [java_extractTodo name, if_neg (Nat.not_le_of_lt large)]
  rw [Java.actionListTodo, mapM_eq_none member fails]

end Lists

end FizzbeeMbt.TodoAdapters
