import Mathlib.Data.List.Basic

/-! Lists cut at a delimiter. -/

namespace FizzbeeMbt.Delimiters

variable {α : Type*} [DecidableEq α]

/-- Two lists with equally many delimiters before a delimiter are cut there alike. -/
theorem append_cons_inj_of_count {left right x y : List α} {q : α}
    (counts : left.count q = right.count q) :
    left ++ q :: x = right ++ q :: y ↔ left = right ∧ x = y := by
  have longer : ∀ {left right x y : List α}, left.count q = right.count q →
      ∀ extra, right = left ++ extra → q :: x = extra ++ q :: y → left = right ∧ x = y := by
    intro left right x y counts extra whole rest
    cases extra with
    | nil => exact ⟨by rw [whole, List.append_nil], (List.cons.inj rest).2⟩
    | cons c extra =>
        obtain rfl := (List.cons.inj rest).1
        rw [whole, List.count_append, List.count_cons_self] at counts
        omega
  constructor
  · intro same
    rcases List.append_eq_append_iff.mp same with ⟨extra, whole, rest⟩ | ⟨extra, whole, rest⟩
    · exact longer counts extra whole rest
    · obtain ⟨rfl, rfl⟩ := longer counts.symm extra whole rest
      exact ⟨rfl, rfl⟩
  · rintro ⟨rfl, rfl⟩
    rfl

theorem append_cons_inj_of_free {left right x y : List α} {q : α} (free : q ∉ left)
    (free' : q ∉ right) : left ++ q :: x = right ++ q :: y ↔ left = right ∧ x = y :=
  append_cons_inj_of_count
    ((List.count_eq_zero_of_not_mem free).trans (List.count_eq_zero_of_not_mem free').symm)

/-- Only the last element of a list that ends in its first delimiter is a delimiter. -/
theorem eq_of_append_delimiter {left right y : List α} {q : α} (free : q ∉ left)
    (same : left ++ [q] = right ++ q :: y) : left = right := by
  have counts := congrArg (List.count q) same
  simp only [List.count_append, List.count_cons_self, List.count_nil,
    List.count_eq_zero_of_not_mem free] at counts
  have none : q ∉ right := by
    apply List.count_eq_zero.mp
    omega
  exact ((append_cons_inj_of_free free none).mp same).1

/-- The last part of a list cut at every delimiter. -/
theorem getLast?_splitOn (left : List α) {part : List α} {q : α} (free : q ∉ part) :
    ((left ++ q :: part).splitOn q).getLast? = some part := by
  rw [List.splitOn_append_cons_self, List.splitOn_eq_singleton free]
  simp

end FizzbeeMbt.Delimiters
