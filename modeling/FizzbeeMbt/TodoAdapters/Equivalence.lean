import FizzbeeMbt.TodoAdapters.Reading

/-! The TypeScript adapter against the Java adapter on any cards: they agree up to the
characters that only one of the two languages trims. -/

namespace FizzbeeMbt.TodoAdapters

open FizzbeeMbt.Trim

section Titles

/-- JavaScript alone trims white space beyond the space, Java alone the control
characters that are no white space. -/
theorem blanks_differ_iff (c : UInt16) :
    Ts.isBlank c ≠ Java.isBlank c ↔
      c ≤ 0x08 ∨ 0x0E ≤ c ∧ c ≤ 0x1F ∨ 0x20 < c ∧ Ts.isBlank c = true := by
  have white : Ts.isBlank c = true ↔ 9 ≤ c.toNat ∧ c.toNat ≤ 13 ∨ c.toNat = 32 ∨
      32 < c.toNat ∧ Ts.isBlank c = true := by
    simp only [Ts.isBlank, Bool.or_eq_true, Bool.and_eq_true, decide_eq_true_eq,
      UInt16.le_iff_toNat_le, ← UInt16.toNat_inj, UInt16.reduceToNat]
    omega
  have control : Java.isBlank c = true ↔ c.toNat ≤ 32 := by
    simp [Java.isBlank, UInt16.le_iff_toNat_le]
  rw [Ne, Bool.eq_iff_iff, control]
  simp only [UInt16.le_iff_toNat_le, UInt16.lt_iff_toNat_lt, UInt16.reduceToNat]
  generalize Ts.isBlank c = blank at *
  cases blank <;> simp at * <;> omega

/-- Neither end of a title, without the blanks that both languages trim, is a blank to
one of them, nor is what first follows the prefix and such blanks. -/
def TrimmedAlike (title : Text) : Prop :=
  let shown := trim (both Ts.isBlank Java.isBlank) title
  SameEnds Ts.isBlank Java.isBlank shown ∧
    (TITLE_PREFIX <+: shown →
      ∀ c ∈ (trim (both Ts.isBlank Java.isBlank) (shown.drop TITLE_PREFIX.length)).head?,
        Ts.isBlank c = Java.isBlank c)

theorem ts_marker : Marker Ts.isBlank TITLE_PREFIX :=
  ⟨⟨unit 'S', by simp [TITLE_PREFIX, lit], by decide⟩,
    ⟨unit ' ', by simp [TITLE_PREFIX, lit], by decide⟩⟩

theorem java_marker : Marker Java.isBlank TITLE_PREFIX :=
  ⟨⟨unit 'S', by simp [TITLE_PREFIX, lit], by decide⟩,
    ⟨unit ' ', by simp [TITLE_PREFIX, lit], by decide⟩⟩

theorem values_alike_iff (n : Int) (card : Card) :
    (recordOf Ts.isBlank n card).value = (recordOf Java.isBlank n card).value ↔
      TrimmedAlike (titleOf n card) :=
  stripped_eq_stripped_iff ts_marker java_marker

/-- No trimming takes away a quotation mark. -/
theorem quotes_kept (blank : UInt16 → Bool) (visible : blank (unit '"') = false) (n : Int)
    (card : Card) :
    (recordOf blank n card).value.count (unit '"') = (titleOf n card).count (unit '"') :=
  count_stripped blank TITLE_PREFIX _ _ visible (by simp [TITLE_PREFIX, lit, unit])

end Titles

/-- The adapters return the same string exactly when every title is trimmed alike and no
number is the least int, which Java cannot read without its sign. -/
theorem listTodo_agree_iff (number : Card → Int) (cards : List Card)
    (named : ∀ card ∈ cards, ∃ zeros, card.testid = testId zeros (number card))
    (fits : ∀ card ∈ cards, -2147483648 ≤ number card ∧ number card ≤ 2147483647) :
    Ts.actionListTodo cards = Java.actionListTodo cards ↔
      ∀ card ∈ cards, number card ≠ -2147483648 ∧ TrimmedAlike (titleOf (number card) card) := by
  have safe : ∀ card ∈ cards, (number card).natAbs ≤ Ts.MAX_SAFE_INTEGER := by
    intro card member
    have bounds := fits card member
    simp only [Ts.MAX_SAFE_INTEGER]
    omega
  rw [ts_actionListTodo named safe]
  by_cases positive : ∀ card ∈ cards, number card ≠ -2147483648
  · have small : ∀ card ∈ cards, (number card).natAbs ≤ Java.MAX_VALUE := by
      intro card member
      have bounds := fits card member
      have differ := positive card member
      simp only [Java.MAX_VALUE]
      omega
    rw [java_actionListTodo named small, Option.some_inj, format_eq_format_iff]
    · simp only [byNumber, List.mem_insertionSort, values_alike_iff]
      constructor
      · intro alike card member
        exact ⟨positive card member, alike card member⟩
      · intro alike card member
        exact (alike card member).2
    · exact fun card _ => ⟨rfl, rfl, rfl⟩
    · intro card _
      rw [quotes_kept _ (by decide), quotes_kept _ (by decide)]
  · simp only [not_forall, not_not] at positive
    obtain ⟨card, member, least⟩ := positive
    have large : Java.MAX_VALUE < (number card).natAbs := by
      rw [least]
      decide
    rw [java_actionListTodo_throws named member large]
    constructor
    · intro same
      cases same
    · intro alike
      exact absurd least (alike card member).1

/-- A card with a number and a title, and no class. -/
def titled (n : Int) (title : Text) : Card := ⟨testId 0 n, none, fun _ => some title⟩

theorem listTodo_agree_iff_spaced :
    Ts.actionListTodo [titled 2 (lit " Sample Title  b "), titled 1 (lit "a")] =
      Java.actionListTodo [titled 2 (lit " Sample Title  b "), titled 1 (lit "a")] := by
  have named : ∀ card ∈ [titled 2 (lit " Sample Title  b "), titled 1 (lit "a")],
      ∃ zeros, card.testid = testId zeros (if card.testid = testId 0 2 then 2 else 1) := by
    simp only [List.forall_mem_cons, List.not_mem_nil, false_imp_iff, implies_true, and_true]
    exact ⟨⟨0, by decide +kernel⟩, ⟨0, by decide +kernel⟩⟩
  have spaced : TrimmedAlike (lit " Sample Title  b ") := by
    refine ⟨by decide +kernel, fun _ c first => ?_⟩
    have start : (trim (both Ts.isBlank Java.isBlank)
        ((trim (both Ts.isBlank Java.isBlank) (lit " Sample Title  b ")).drop
          TITLE_PREFIX.length)).head? = some (unit 'b') := by decide +kernel
    rw [start] at first
    obtain rfl := Option.some.inj first
    decide
  have plain : TrimmedAlike (lit "a") :=
    ⟨by decide +kernel, fun first => absurd first (by decide +kernel)⟩
  have agree := listTodo_agree_iff (fun card => if card.testid = testId 0 2 then 2 else 1)
    [titled 2 (lit " Sample Title  b "), titled 1 (lit "a")] named (by decide +kernel)
  simp only [List.forall_mem_cons, List.not_mem_nil, false_imp_iff, implies_true, and_true] at agree
  exact agree.mpr ⟨⟨by decide +kernel, spaced⟩, by decide +kernel, plain⟩

/-- A title that ends in a no-break space is trimmed by JavaScript and not by Java. -/
theorem noBreakSpace_reported_apart :
    (titled 1 (lit "Sample Title a" ++ [0xA0])).testid = lit "todo-card-1" ∧
      Ts.actionListTodo [titled 1 (lit "Sample Title a" ++ [0xA0])] =
        some (lit "[record(deleted = False, id = 1, pinned = False, value = \"a\")]") ∧
      Java.actionListTodo [titled 1 (lit "Sample Title a" ++ [0xA0])] =
        some (lit "[record(deleted = False, id = 1, pinned = False, value = \"a" ++ [0xA0] ++
          lit "\")]") ∧
      Ts.actionListTodo [titled 1 (lit "Sample Title a" ++ [0xA0])] ≠
        Java.actionListTodo [titled 1 (lit "Sample Title a" ++ [0xA0])] := by
  decide +kernel

end FizzbeeMbt.TodoAdapters
