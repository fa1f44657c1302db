import FizzbeeMbt.TodoAdapters.Numerals

/-! The string of a list of records, which is the same in both adapters, and what can be
read off it again. -/

namespace FizzbeeMbt.TodoAdapters

open FizzbeeMbt.Delimiters Ts

section Records

def truth (b : Bool) : Text := if b then lit "True" else lit "False"

/-- A record up to the opening quotation mark of its value. -/
def header (record : TodoRecord) : Text :=
  lit "record(" ++ (lit "deleted" ++ lit " = " ++ (truth record.deleted ++ (lit ", " ++
    (lit "id" ++ lit " = " ++ (decimal record.id ++ (lit ", " ++
      (lit "pinned" ++ lit " = " ++ (truth record.pinned ++ (lit ", " ++
        (lit "value" ++ lit " = " ++ lit "\""))))))))))

/-- What follows the value of a record when `rest` are the records after it. -/
def closing : List TodoRecord → Text
  | [] => lit "\")"
  | record :: rest => lit "\")" ++ (lit ", " ++ (header record ++ (record.value ++ closing rest)))

theorem toFizzBeeFormat_eq (record : TodoRecord) :
    toFizzBeeFormat record = header record ++ (record.value ++ lit "\")") := by
  have quoted : lit "\")" = lit "\"" ++ lit ")" := by simp [lit]
  simp only [toFizzBeeFormat, header, truth, quoted, List.map_cons, List.map_nil,
    List.intercalate_cons_cons, List.intercalate_singleton, List.append_assoc]

theorem toFizzBeeFormatList_cons (record : TodoRecord) (rest : List TodoRecord) :
    toFizzBeeFormatList (record :: rest) =
      lit "[" ++ (header record ++ (record.value ++ closing rest)) ++ lit "]" := by
  have joined : ∀ record, (lit ", ").intercalate ((record :: rest).map toFizzBeeFormat) =
      header record ++ (record.value ++ closing rest) := by
    induction rest with
    | nil =>
        intro record
        simpa [closing] using toFizzBeeFormat_eq record
    | cons next rest ih =>
        intro record
        rw [List.map_cons, List.map_cons, List.intercalate_cons_cons, ← List.map_cons, ih next,
          toFizzBeeFormat_eq]
        simp only [closing, List.append_assoc]
  rw [toFizzBeeFormatList, joined]

theorem truth_injective : Function.Injective truth := by
  intro a b
  cases a <;> cases b <;> simp [truth, lit, unit]

theorem comma_notMem_truth (b : Bool) : unit ',' ∉ truth b := by
  cases b <;> simp [truth, lit, unit]

/-- A header tells its fields and where it ends. -/
theorem header_append_inj {left right : TodoRecord} {x y : Text} :
    header left ++ x = header right ++ y ↔
      (left.deleted = right.deleted ∧ left.id = right.id ∧ left.pinned = right.pinned) ∧
        x = y := by
  have comma : lit ", " = unit ',' :: lit " " := by simp [lit]
  have decimals : ∀ n, unit ',' ∉ decimal n := notMem_decimal (by decide) (by decide)
  simp only [header, comma, List.append_assoc, List.cons_append, List.append_cancel_left_eq]
  rw [append_cons_inj_of_free (comma_notMem_truth _) (comma_notMem_truth _)]
  simp only [List.append_cancel_left_eq]
  rw [append_cons_inj_of_free (decimals _) (decimals _)]
  simp only [List.append_cancel_left_eq]
  rw [append_cons_inj_of_free (comma_notMem_truth _) (comma_notMem_truth _)]
  simp only [List.append_cancel_left_eq, truth_injective.eq_iff, decimal_injective.eq_iff,
    and_assoc]

theorem closing_quoted (rest : List TodoRecord) : ∃ tail, closing rest = unit '"' :: tail := by
  have quoted : lit "\")" = unit '"' :: lit ")" := by simp [lit]
  cases rest with
  | nil => exact ⟨lit ")", quoted⟩
  | cons record rest => exact ⟨_, by rw [closing, quoted, List.cons_append]⟩

end Records

section Agreement

/-- The map that Java makes of a record. -/
def treeMap (record : TodoRecord) : Java.TreeMap :=
  [(lit "deleted", .boolean record.deleted), (lit "id", .integer record.id),
    (lit "pinned", .boolean record.pinned), (lit "value", .string record.value)]

theorem java_toFizzBeeFormat (record : TodoRecord) :
    Java.toFizzBeeFormat (treeMap record) = toFizzBeeFormat record := by
  simp [Java.toFizzBeeFormat, treeMap, Java.appendEntries, Java.append, toFizzBeeFormat,
    List.intercalate_cons_cons]

theorem java_toFizzBeeFormatList (records : List TodoRecord) :
    Java.toFizzBeeFormatList (records.map treeMap) = toFizzBeeFormatList records := by
  have joined : Java.appendRecords (records.map treeMap) =
      (lit ", ").intercalate (records.map toFizzBeeFormat) := by
    induction records with
    | nil => rfl
    | cons record rest ih =>
        cases rest with
        | nil => simp [Java.appendRecords, java_toFizzBeeFormat]
        | cons next rest =>
            have first : Java.appendRecords ((record :: next :: rest).map treeMap) =
                Java.toFizzBeeFormat (treeMap record) ++ lit ", " ++
                  Java.appendRecords ((next :: rest).map treeMap) := rfl
            rw [first, ih, java_toFizzBeeFormat, List.append_assoc]
            simp only [List.map_cons, List.intercalate_cons_cons, List.append_assoc]
  rw [Java.toFizzBeeFormatList, joined, toFizzBeeFormatList]

/-- Values with equally many quotation marks before a closing one are told apart. -/
theorem value_append_closing_inj {value value' : Text} {rest rest' : List TodoRecord}
    (counts : value.count (unit '"') = value'.count (unit '"')) :
    value ++ closing rest = value' ++ closing rest' ↔
      value = value' ∧ closing rest = closing rest' := by
  obtain ⟨tail, first⟩ := closing_quoted rest
  obtain ⟨tail', first'⟩ := closing_quoted rest'
  rw [first, first', append_cons_inj_of_count counts, List.cons_inj_right]

theorem closing_eq_closing_iff {β : Type} (f g : β → TodoRecord) (items : List β)
    (alike : ∀ item ∈ items, (f item).deleted = (g item).deleted ∧ (f item).id = (g item).id ∧
      (f item).pinned = (g item).pinned)
    (counts : ∀ item ∈ items,
      (f item).value.count (unit '"') = (g item).value.count (unit '"')) :
    closing (items.map f) = closing (items.map g) ↔
      ∀ item ∈ items, (f item).value = (g item).value := by
  induction items with
  | nil => simp
  | cons item items ih =>
      have below := ih (fun other member => alike other (List.mem_cons_of_mem item member))
        (fun other member => counts other (List.mem_cons_of_mem item member))
      simp only [List.map_cons, closing, List.append_cancel_left_eq, header_append_inj,
        value_append_closing_inj (counts item List.mem_cons_self), alike item List.mem_cons_self,
        below, List.forall_mem_cons, true_and, and_self]

/-- Two strings of records that differ in their values alone, and there not in how many
quotation marks they have, are equal only if the values are. -/
theorem format_eq_format_iff {β : Type} (f g : β → TodoRecord) (items : List β)
    (alike : ∀ item ∈ items, (f item).deleted = (g item).deleted ∧ (f item).id = (g item).id ∧
      (f item).pinned = (g item).pinned)
    (counts : ∀ item ∈ items,
      (f item).value.count (unit '"') = (g item).value.count (unit '"')) :
    toFizzBeeFormatList (items.map f) = toFizzBeeFormatList (items.map g) ↔
      ∀ item ∈ items, (f item).value = (g item).value := by
  cases items with
  | nil => simp
  | cons item items =>
      have below := closing_eq_closing_iff f g items
        (fun other member => alike other (List.mem_cons_of_mem item member))
        (fun other member => counts other (List.mem_cons_of_mem item member))
      simp only [List.map_cons, toFizzBeeFormatList_cons, List.append_cancel_left_eq,
        List.append_cancel_right_eq, header_append_inj,
        value_append_closing_inj (counts item List.mem_cons_self), alike item List.mem_cons_self,
        below, List.forall_mem_cons, true_and, and_self]

end Agreement

end FizzbeeMbt.TodoAdapters
