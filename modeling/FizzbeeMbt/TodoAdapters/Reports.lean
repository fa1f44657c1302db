import FizzbeeMbt.Lib.Joins
import FizzbeeMbt.TodoAdapters.Reading

/-! What the report of a list of todos tells of the list: the values stand in it unescaped,
so that a value can spell the records after it. -/

namespace FizzbeeMbt.TodoAdapters

open FizzbeeMbt.Trim FizzbeeMbt.Joins

section Todos

@[ext] structure Todo where
  id : Nat
  value : Text
  pinned : Bool
  deriving DecidableEq

/-- The app shows a todo as a card, with the title that the adapters write. -/
structure Shows (todo : Todo) (card : Card) : Prop where
  testid : card.testid = lit "todo-card-" ++ digits todo.id
  title : card.textContent (lit "todo-title-" ++ digits todo.id) =
    some (TITLE_PREFIX ++ todo.value)
  cls : (card.cls.any fun cls => lit "pinned" <:+: cls) = todo.pinned

inductive Language where
  | typeScript
  | java

/-- What `trim` strips. -/
def Language.isBlank : Language → UInt16 → Bool
  | .typeScript => Ts.isBlank
  | .java => Java.isBlank

/-- The largest id that is read as it is written. -/
def Language.maxId : Language → Nat
  | .typeScript => Ts.MAX_SAFE_INTEGER
  | .java => Java.MAX_VALUE

def Language.actionListTodo : Language → List Card → Option Text
  | .typeScript => Ts.actionListTodo
  | .java => Java.actionListTodo

/-- The id and pin of a todo, and its value as an adapter reads it off the title. -/
def Language.seen (language : Language) (todo : Todo) : (Nat × Bool) × Text :=
  ((todo.id, todo.pinned), if trim language.isBlank todo.value = [] then lit "Sample Title"
    else trim language.isBlank todo.value)

/-- What an adapter sees of a list of todos, in the order of the ids. -/
def Language.arranged (language : Language) (todos : List Todo) : List ((Nat × Bool) × Text) :=
  (todos.insertionSort fun a b => a.id ≤ b.id).map language.seen

/-- What stands between the values of two records, the second of the given id and pin. -/
def gap (key : Nat × Bool) : Text :=
  lit "\"), record(deleted = False, id = " ++ (digits key.1 ++ (lit ", pinned = " ++
    (truth key.2 ++ lit ", value = \"")))

end Todos

section Reading

/-- The record that is made of what is seen. -/
def record (item : (Nat × Bool) × Text) : Ts.TodoRecord := ⟨item.1.1, item.2, false, item.1.2⟩

theorem isBlank_space (language : Language) : language.isBlank (unit ' ') = true := by
  cases language <;> decide

theorem stem_trimmed (language : Language) : Trimmed language.isBlank (lit "Sample Title") := by
  cases language <;> decide +kernel

/-- The prefix that the adapters write into a title comes off again, unless the value is
blank: then the title is read without its last space. -/
theorem stripped_title (language : Language) (todo : Todo) :
    stripped language.isBlank TITLE_PREFIX (TITLE_PREFIX ++ todo.value) =
      (language.seen todo).2 := by
  have marker : TITLE_PREFIX = lit "Sample Title" ++ [unit ' '] := by
    simp [TITLE_PREFIX, lit]
  rw [marker]
  exact stripped_marked (by simp [lit]) (stem_trimmed language) (isBlank_space language)
    todo.value

theorem recordOf_of_shows {todo : Todo} {card : Card} (language : Language)
    (shows : Shows todo card) :
    recordOf language.isBlank todo.id card = record (language.seen todo) := by
  have title : titleOf todo.id card = TITLE_PREFIX ++ todo.value := by
    change (card.textContent (lit "todo-title-" ++ digits todo.id)).getD [] = _
    rw [shows.title]
    rfl
  rw [recordOf, title, stripped_title, isPinned, shows.cls]
  rfl

theorem testId_nat (n : Nat) : testId 0 n = lit "todo-card-" ++ digits n := by
  simp [testId, numeral]

theorem ts_extractTodo_of_shows {todo : Todo} {card : Card} (shows : Shows todo card)
    (readable : todo.id ≤ Language.typeScript.maxId) :
    Ts.extractTodo card = some (record (Language.typeScript.seen todo)) := by
  have named : card.testid = testId 0 todo.id := shows.testid.trans (testId_nat todo.id).symm
  rw [ts_extractTodo named readable]
  exact congrArg some (recordOf_of_shows .typeScript shows)

theorem java_extractTodo_of_shows {todo : Todo} {card : Card} (shows : Shows todo card)
    (readable : todo.id ≤ Language.java.maxId) :
    Java.extractTodo card = some (treeMap (record (Language.java.seen todo))) := by
  have named : card.testid = testId 0 todo.id := shows.testid.trans (testId_nat todo.id).symm
  have fits : (todo.id : Int).natAbs ≤ Java.MAX_VALUE := readable
  rw [java_extractTodo named, if_pos fits]
  exact congrArg (fun todo => some (treeMap todo)) (recordOf_of_shows .java shows)

/-- Either adapter returns the string of the records that it sees. -/
theorem actionListTodo_of_shows (language : Language) {todos : List Todo} {cards : List Card}
    (shown : List.Forall₂ Shows todos cards)
    (readable : ∀ todo ∈ todos, todo.id ≤ language.maxId) :
    language.actionListTodo cards =
      some (Ts.toFizzBeeFormatList ((language.arranged todos).map record)) := by
  have each := (List.forall₂_and_left _ _).mpr ⟨readable, shown⟩
  rw [Language.arranged, List.map_map]
  cases language with
  | typeScript =>
      apply ts_actionListTodo_of_read (record ∘ Language.typeScript.seen) Todo.id (fun _ => rfl)
      exact each.imp fun _ _ both => ts_extractTodo_of_shows both.2 both.1
  | java =>
      apply java_actionListTodo_of_read (record ∘ Language.java.seen) Todo.id (fun _ => rfl)
      exact each.imp fun _ _ both => java_extractTodo_of_shows both.2 both.1

end Reading

section Writing

theorem gap_eq (item : (Nat × Bool) × Text) :
    gap item.1 = lit "\")" ++ (lit ", " ++ header (record item)) := by
  have start : lit "\"), record(deleted = False, id = " = lit "\")" ++ (lit ", " ++
      (lit "record(" ++ (lit "deleted" ++ lit " = " ++ (truth false ++ (lit ", " ++
        (lit "id" ++ lit " = ")))))) := by
    simp [lit, truth]
  have middle : lit ", pinned = " = lit ", " ++ (lit "pinned" ++ lit " = ") := by simp [lit]
  have stop : lit ", value = \"" = lit ", " ++ (lit "value" ++ lit " = " ++ lit "\"") := by
    simp [lit]
  have number : decimal (record item).id = digits item.1.1 := rfl
  simp only [gap, header, number, start, middle, stop, List.append_assoc]
  rfl

theorem gap_quoted : Quoted gap (unit '"') (unit ' ') := by
  constructor
  · rintro ⟨id, pinned⟩
    have start : lit "\"), record(deleted = False, id = " =
        unit '"' :: lit "), record(deleted = False, id = " := by simp [lit]
    have stop : lit ", value = \"" = lit ", value = " ++ [unit '"'] := by simp [lit]
    refine ⟨lit "), record(deleted = False, id = " ++ (digits id ++ (lit ", pinned = " ++
      (truth pinned ++ lit ", value = "))), ?_, ?_, ?_⟩
    · simp only [gap, start, stop, List.cons_append, List.append_assoc]
    · have number : unit '"' ∉ digits id := notMem_numeral (by decide) 0 id
      have flag : unit '"' ∉ truth pinned := by cases pinned <;> simp [truth, lit, unit]
      simp only [List.mem_append, not_or]
      exact ⟨by simp [lit, unit], number, by simp [lit, unit], flag, by simp [lit, unit]⟩
    · have last : (lit ", value = ").getLast? = some (unit ' ') := by simp [lit]
      simp only [List.getLast?_append, last, Option.some_or]
  · rintro ⟨id, pinned⟩ ⟨id', pinned'⟩ x y same
    rw [gap_eq ((id, pinned), []), gap_eq ((id', pinned'), [])] at same
    simp only [List.append_assoc, List.append_cancel_left_eq, header_append_inj] at same
    obtain ⟨⟨-, numbers, flags⟩, rest⟩ := same
    exact ⟨Prod.ext (Int.ofNat.inj numbers) flags, rest⟩

/-- The values of a report are joined by the gaps between them. -/
theorem value_append_closing (value : Text) (rest : List ((Nat × Bool) × Text)) :
    value ++ closing (rest.map record) = joined gap value rest ++ lit "\")" := by
  induction rest generalizing value with
  | nil => rfl
  | cons item rest ih =>
      have next := ih item.2
      rw [List.map_cons, closing, joined, gap_eq]
      simp only [List.append_assoc, List.append_cancel_left_eq]
      exact next

theorem format_nil_ne (item : (Nat × Bool) × Text) (rest : List ((Nat × Bool) × Text)) :
    Ts.toFizzBeeFormatList (([] : List ((Nat × Bool) × Text)).map record) ≠
      Ts.toFizzBeeFormatList ((item :: rest).map record) := by
  intro same
  have lengths := congrArg List.length same
  have filled : 0 < (header (record item)).length := by
    simp [header, lit]
  rw [List.map_cons, toFizzBeeFormatList_cons] at lengths
  simp [Ts.toFizzBeeFormatList] at lengths
  omega

/-- Two strings of records are equal exactly when what is seen can be cut alike. -/
theorem format_eq_iff_alike {items items' : List ((Nat × Bool) × Text)}
    (ends : Unblank (unit ' ') items) (ends' : Unblank (unit ' ') items') :
    Ts.toFizzBeeFormatList (items.map record) = Ts.toFizzBeeFormatList (items'.map record) ↔
      Alike gap items items' := by
  cases items with
  | nil =>
      cases items' with
      | nil => exact ⟨fun _ => alike_nil, fun _ => rfl⟩
      | cons item' rest' =>
          constructor
          · intro same
            exact absurd same (format_nil_ne item' rest')
          · intro alike
            exact absurd alike not_alike_nil_cons
  | cons item rest =>
      cases items' with
      | nil =>
          constructor
          · intro same
            exact absurd same.symm (format_nil_ne item rest)
          · intro alike
            exact absurd alike.symm not_alike_nil_cons
      | cons item' rest' =>
          have keys : ((record item).deleted = (record item').deleted ∧
              (record item).id = (record item').id ∧
              (record item).pinned = (record item').pinned) ↔ item.1 = item'.1 := by
            constructor
            · rintro ⟨-, numbers, flags⟩
              exact Prod.ext (Int.ofNat.inj numbers) flags
            · intro same
              simp only [record, same, and_self]
          have body : ∀ (item : (Nat × Bool) × Text) (rest : List ((Nat × Bool) × Text)),
              (record item).value ++ closing (rest.map record) =
                joined gap item.2 rest ++ lit "\")" :=
            fun item rest => value_append_closing item.2 rest
          rw [List.map_cons, List.map_cons, toFizzBeeFormatList_cons, toFizzBeeFormatList_cons,
            List.append_cancel_right_eq, List.append_cancel_left_eq, header_append_inj, keys,
            body, body, List.append_cancel_right_eq]
          exact (gap_quoted.alike_iff_joined_eq ends ends').symm

end Writing

section Reports

variable (language : Language) {todos todos' : List Todo} {cards cards' : List Card}

theorem arranged_unblank (todos : List Todo) :
    Unblank (unit ' ') (language.arranged todos) := by
  intro item member last
  obtain ⟨todo, -, rfl⟩ := List.mem_map.mp member
  have trimmed : Trimmed language.isBlank (language.seen todo).2 := by
    unfold Language.seen
    dsimp only
    split
    · exact stem_trimmed language
    · exact trim_trimmed language.isBlank todo.value
  have visible := trimmed.last _ last
  rw [isBlank_space] at visible
  cases visible

theorem listTodo_eq_iff_alike (shown : List.Forall₂ Shows todos cards)
    (shown' : List.Forall₂ Shows todos' cards')
    (readable : ∀ todo ∈ todos, todo.id ≤ language.maxId)
    (readable' : ∀ todo ∈ todos', todo.id ≤ language.maxId) :
    language.actionListTodo cards = language.actionListTodo cards' ↔
      Alike gap (language.arranged todos) (language.arranged todos') := by
  rw [actionListTodo_of_shows language shown readable,
    actionListTodo_of_shows language shown' readable', Option.some_inj]
  exact format_eq_iff_alike (arranged_unblank language todos) (arranged_unblank language todos')

/-- A value that is reported as it is and cannot be taken for the records after it. -/
structure Plain (value : Text) : Prop where
  filled : value ≠ []
  trimmed : Trimmed language.isBlank value
  unquoted : unit '"' ∉ value

instance (value : Text) : Decidable (Plain language value) :=
  decidable_of_iff (value ≠ [] ∧ Trimmed language.isBlank value ∧ unit '"' ∉ value)
    ⟨fun ⟨filled, trimmed, unquoted⟩ => ⟨filled, trimmed, unquoted⟩,
      fun ⟨filled, trimmed, unquoted⟩ => ⟨filled, trimmed, unquoted⟩⟩

theorem seen_of_plain {todo : Todo} (plain : Plain language todo.value) :
    language.seen todo = ((todo.id, todo.pinned), todo.value) := by
  rw [Language.seen, trim_eq_self_iff.mpr plain.trimmed, if_neg plain.filled]

/-- What is seen of plain values tells which todos there are. -/
theorem mem_of_arranged_eq (plain : ∀ todo ∈ todos, Plain language todo.value)
    (plain' : ∀ todo ∈ todos', Plain language todo.value)
    (same : language.arranged todos = language.arranged todos') {todo : Todo}
    (member : todo ∈ todos) : todo ∈ todos' := by
  have among : language.seen todo ∈ language.arranged todos' := by
    rw [← same]
    exact List.mem_map_of_mem ((List.mem_insertionSort _).mpr member)
  obtain ⟨other, sorted, seen⟩ := List.mem_map.mp among
  have member' := (List.mem_insertionSort _).mp sorted
  rw [seen_of_plain language (plain todo member),
    seen_of_plain language (plain' other member')] at seen
  obtain ⟨keys, values⟩ := Prod.mk.inj seen
  obtain ⟨numbers, flags⟩ := Prod.mk.inj keys
  exact Todo.ext numbers values flags ▸ member'

theorem arranged_unquoted (plain : ∀ todo ∈ todos, Plain language todo.value) :
    ∀ item ∈ language.arranged todos, unit '"' ∉ item.2 := by
  intro item member
  obtain ⟨todo, sorted, rfl⟩ := List.mem_map.mp member
  have plainly := plain todo ((List.mem_insertionSort _).mp sorted)
  rw [seen_of_plain language plainly]
  exact plainly.unquoted

/-- Lists of plain values are cut alike only if they have the same todos. -/
theorem mem_iff_of_alike (plain : ∀ todo ∈ todos, Plain language todo.value)
    (plain' : ∀ todo ∈ todos', Plain language todo.value)
    (alike : Alike gap (language.arranged todos) (language.arranged todos')) :
    ∀ todo, todo ∈ todos ↔ todo ∈ todos' := by
  have same := gap_quoted.eq_of_alike (arranged_unquoted language plain)
    (arranged_unquoted language plain') alike
  intro todo
  constructor
  · exact mem_of_arranged_eq language plain plain' same
  · exact mem_of_arranged_eq language plain' plain same.symm

/-- Different lists of plain values are reported differently. -/
theorem listTodo_ne_of_plain (shown : List.Forall₂ Shows todos cards)
    (shown' : List.Forall₂ Shows todos' cards')
    (readable : ∀ todo ∈ todos, todo.id ≤ language.maxId)
    (readable' : ∀ todo ∈ todos', todo.id ≤ language.maxId)
    (plain : ∀ todo ∈ todos, Plain language todo.value)
    (plain' : ∀ todo ∈ todos', Plain language todo.value)
    (differ : ¬∀ todo, todo ∈ todos ↔ todo ∈ todos') :
    language.actionListTodo cards ≠ language.actionListTodo cards' := by
  intro same
  have alike := (listTodo_eq_iff_alike language shown shown' readable readable').mp same
  exact differ (mem_iff_of_alike language plain plain' alike)

/-- Different lists are reported differently exactly when they cannot be cut alike at the
texts in their values that read like the gap between two records. -/
theorem listTodo_faithful_iff (shown : List.Forall₂ Shows todos cards)
    (shown' : List.Forall₂ Shows todos' cards')
    (readable : ∀ todo ∈ todos, todo.id ≤ language.maxId)
    (readable' : ∀ todo ∈ todos', todo.id ≤ language.maxId) :
    ((¬∀ todo, todo ∈ todos ↔ todo ∈ todos') →
        language.actionListTodo cards ≠ language.actionListTodo cards') ↔
      (Alike gap (language.arranged todos) (language.arranged todos') →
        ∀ todo, todo ∈ todos ↔ todo ∈ todos') := by
  rw [Ne, listTodo_eq_iff_alike language shown shown' readable readable']
  exact not_imp_not

/-- A card that shows a todo. -/
def cardOf (todo : Todo) : Card :=
  ⟨lit "todo-card-" ++ digits todo.id, if todo.pinned then some (lit "card pinned") else none,
    fun _ => some (TITLE_PREFIX ++ todo.value)⟩

theorem cardOf_shows (todo : Todo) : Shows todo (cardOf todo) := by
  have read : ∀ pinned, ((if pinned = true then some (lit "card pinned") else none).any
      fun cls => lit "pinned" <:+: cls) = pinned := by decide +kernel
  exact ⟨rfl, rfl, read todo.pinned⟩

theorem cardOf_shows_all (todos : List Todo) : List.Forall₂ Shows todos (todos.map cardOf) := by
  rw [List.forall₂_map_right_iff, List.forall₂_same]
  exact fun todo _ => cardOf_shows todo

theorem listTodo_faithful_iff_pair :
    Java.actionListTodo ([⟨2, lit "b", true⟩, ⟨1, lit "a", false⟩].map cardOf) ≠
      Java.actionListTodo ([⟨1, lit "a", false⟩, ⟨2, lit "b", false⟩].map cardOf) := by
  have faithful := listTodo_faithful_iff .java
    (cardOf_shows_all [⟨2, lit "b", true⟩, ⟨1, lit "a", false⟩])
    (cardOf_shows_all [⟨1, lit "a", false⟩, ⟨2, lit "b", false⟩]) (by decide) (by decide)
  apply faithful.mpr (mem_iff_of_alike .java (by decide +kernel) (by decide +kernel))
  intro same
  exact absurd ((same ⟨2, lit "b", true⟩).mp (by decide)) (by decide)

/-- A todo whose value spells a second record is reported as two todos. -/
theorem second_record_in_value :
    let one : List Todo :=
      [⟨1, lit "a\"), record(deleted = False, id = 2, pinned = False, value = \"b", false⟩]
    let two : List Todo := [⟨1, lit "a", false⟩, ⟨2, lit "b", false⟩]
    (one.map Todo.id).Nodup ∧ (two.map Todo.id).Nodup ∧
      (∀ todo ∈ one ++ two,
        trim Ts.isBlank todo.value = todo.value ∧ trim Java.isBlank todo.value = todo.value) ∧
      List.Forall₂ Shows one (one.map cardOf) ∧ List.Forall₂ Shows two (two.map cardOf) ∧
      (¬∀ todo, todo ∈ one ↔ todo ∈ two) ∧
      Ts.actionListTodo (one.map cardOf) = Ts.actionListTodo (two.map cardOf) ∧
      Java.actionListTodo (one.map cardOf) = Java.actionListTodo (two.map cardOf) := by
  intro one two
  refine ⟨by decide +kernel, by decide +kernel, by decide +kernel, cardOf_shows_all one,
    cardOf_shows_all two, ?_, by decide +kernel, by decide +kernel⟩
  intro same
  exact absurd ((same ⟨1, lit "a", false⟩).mpr (by decide)) (by decide)

/-- An empty value leaves a title that is read as a value itself. -/
example (language : Language) :
    language.actionListTodo [cardOf ⟨1, [], false⟩] =
      language.actionListTodo [cardOf ⟨1, lit "Sample Title", false⟩] := by
  cases language <;> decide +kernel

end Reports

end FizzbeeMbt.TodoAdapters
