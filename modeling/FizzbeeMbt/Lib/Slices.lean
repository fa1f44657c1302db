import Mathlib.Data.List.Basic
import Mathlib.Order.Basic

/-! Slices over arrays on a heap, grown by an `append` that writes into the spare cells
of the array where it can. A slice here starts at the first cell of its array. -/

namespace FizzbeeMbt.Slices

variable {α : Type*}

/-- The arrays allocated so far; the capacity of an array is its number of cells. -/
structure Heap (α : Type*) where
  arrays : List (List α)
  deriving DecidableEq, Repr

structure Slice where
  array : ℕ
  length : ℕ
  deriving DecidableEq, Repr

def Heap.cells (heap : Heap α) (array : ℕ) : List α := heap.arrays.getD array []

def Heap.values (heap : Heap α) (slice : Slice) : List α :=
  (heap.cells slice.array).take slice.length

structure Heap.Valid (heap : Heap α) (slice : Slice) : Prop where
  allocated : slice.array < heap.arrays.length
  within : slice.length ≤ (heap.cells slice.array).length

def overwrite (cells : List α) (i : ℕ) (xs : List α) : List α :=
  cells.take i ++ xs ++ cells.drop (i + xs.length)

/-- `append`: into the array while its capacity lasts, else into a new one, with `spare`
further cells that hold `zero`. -/
def Heap.append (zero : α) (spare : ℕ) (heap : Heap α) (slice : Slice) (xs : List α) :
    Heap α × Slice :=
  if slice.length + xs.length ≤ (heap.cells slice.array).length then
    (⟨heap.arrays.set slice.array (overwrite (heap.cells slice.array) slice.length xs)⟩,
      { slice with length := slice.length + xs.length })
  else
    (⟨heap.arrays ++ [heap.values slice ++ xs ++ List.replicate spare zero]⟩,
      ⟨heap.arrays.length, slice.length + xs.length⟩)

/-- `s[:0]`: the same array from its first cell on. -/
def Slice.cleared (slice : Slice) : Slice := { slice with length := 0 }

section Cells

theorem overwrite_length {cells xs : List α} {i : ℕ} (fits : i + xs.length ≤ cells.length) :
    (overwrite cells i xs).length = cells.length := by
  simp only [overwrite, List.length_append, List.length_take, List.length_drop]
  omega

theorem overwrite_take {cells xs : List α} {i n : ℕ} (below : n ≤ i) (within : i ≤ cells.length) :
    (overwrite cells i xs).take n = cells.take n := by
  have length : n ≤ (cells.take i).length := by
    rw [List.length_take]
    omega
  rw [overwrite, List.append_assoc, List.take_append_of_le_length length, List.take_take,
    Nat.min_eq_left below]

theorem overwrite_values {cells xs : List α} {i : ℕ} (fits : i + xs.length ≤ cells.length) :
    (overwrite cells i xs).take (i + xs.length) = cells.take i ++ xs := by
  have length : (cells.take i ++ xs).length = i + xs.length := by
    rw [List.length_append, List.length_take]
    omega
  rw [overwrite, ← length, List.take_left']
  rfl

theorem overwrite_one (cells : List α) (i : ℕ) (x : α) (fits : i < cells.length) :
    overwrite cells i [x] = cells.set i x := by
  rw [overwrite, List.set_eq_take_append_cons_drop, if_pos fits, List.append_assoc]
  rfl

end Cells

section Append

variable {heap : Heap α} {slice : Slice} (zero : α) (spare : ℕ) (xs : List α)

theorem values_length (valid : heap.Valid slice) : (heap.values slice).length = slice.length := by
  rw [Heap.values, List.length_take]
  exact Nat.min_eq_left valid.within

theorem cells_set (heap : Heap α) {array : ℕ} (cells : List α)
    (allocated : array < heap.arrays.length) (other : ℕ) :
    (⟨heap.arrays.set array cells⟩ : Heap α).cells other =
      if other = array then cells else heap.cells other := by
  simp only [Heap.cells, List.getD_eq_getElem?_getD, List.getElem?_set]
  by_cases same : other = array
  · subst same
    simp [allocated]
  · simp [same, Ne.symm same]

theorem cells_new (heap : Heap α) (cells : List α) :
    (⟨heap.arrays ++ [cells]⟩ : Heap α).cells heap.arrays.length = cells := by
  simp [Heap.cells]

theorem cells_old (heap : Heap α) (cells : List α) {array : ℕ}
    (allocated : array < heap.arrays.length) :
    (⟨heap.arrays ++ [cells]⟩ : Heap α).cells array = heap.cells array := by
  simp [Heap.cells, List.getElem?_append_left allocated]

/-- What an `append` does: it stays in its array, or moves to a new one. -/
theorem append_cases (heap : Heap α) (slice : Slice) :
    (slice.length + xs.length ≤ (heap.cells slice.array).length ∧
      heap.append zero spare slice xs =
        (⟨heap.arrays.set slice.array (overwrite (heap.cells slice.array) slice.length xs)⟩,
          { slice with length := slice.length + xs.length })) ∨
    ((heap.cells slice.array).length < slice.length + xs.length ∧
      heap.append zero spare slice xs =
        (⟨heap.arrays ++ [heap.values slice ++ xs ++ List.replicate spare zero]⟩,
          ⟨heap.arrays.length, slice.length + xs.length⟩)) := by
  by_cases fits : slice.length + xs.length ≤ (heap.cells slice.array).length
  · exact Or.inl ⟨fits, if_pos fits⟩
  · exact Or.inr ⟨Nat.lt_of_not_le fits, if_neg fits⟩

theorem append_valid (valid : heap.Valid slice) :
    (heap.append zero spare slice xs).1.Valid (heap.append zero spare slice xs).2 := by
  rcases append_cases zero spare xs heap slice with ⟨fits, same⟩ | ⟨-, same⟩
  · rw [same]
    constructor
    · simpa using valid.allocated
    · rw [cells_set heap _ valid.allocated, if_pos rfl, overwrite_length fits]
      exact fits
  · rw [same]
    constructor
    · simp
    · simp only [cells_new, List.length_append, values_length valid]
      omega

/-- The new slice holds the old values and then the new ones. -/
theorem append_values (valid : heap.Valid slice) :
    (heap.append zero spare slice xs).1.values (heap.append zero spare slice xs).2 =
      heap.values slice ++ xs := by
  rcases append_cases zero spare xs heap slice with ⟨fits, same⟩ | ⟨-, same⟩
  · rw [same, Heap.values, cells_set heap _ valid.allocated, if_pos rfl, overwrite_values fits]
    rfl
  · have length : (heap.values slice ++ xs).length = slice.length + xs.length := by
      rw [List.length_append, values_length valid]
    rw [same, Heap.values, cells_new, ← length, List.take_left']
    rfl

/-- An array other than the slice's own keeps its cells. -/
theorem append_other (valid : heap.Valid slice) {array : ℕ}
    (allocated : array < heap.arrays.length) (differ : array ≠ slice.array) :
    (heap.append zero spare slice xs).1.cells array = heap.cells array := by
  rcases append_cases zero spare xs heap slice with ⟨-, same⟩ | ⟨-, same⟩
  · rw [same, cells_set heap _ valid.allocated, if_neg differ]
  · rw [same, cells_old heap _ allocated]

/-- The cells before the end of the slice stay, in its old array. -/
theorem append_below (valid : heap.Valid slice) {n : ℕ} (below : n ≤ slice.length) :
    ((heap.append zero spare slice xs).1.cells slice.array).take n =
      (heap.cells slice.array).take n := by
  rcases append_cases zero spare xs heap slice with ⟨-, same⟩ | ⟨-, same⟩
  · rw [same, cells_set heap _ valid.allocated, if_pos rfl]
    exact overwrite_take below valid.within
  · rw [same, cells_old heap _ valid.allocated]

theorem append_grows (heap : Heap α) (slice : Slice) :
    heap.arrays.length ≤ (heap.append zero spare slice xs).1.arrays.length := by
  rcases append_cases zero spare xs heap slice with ⟨-, same⟩ | ⟨-, same⟩ <;> simp [same]

/-- The array of the new slice is the old one, or one that was not there before. -/
theorem append_array (heap : Heap α) (slice : Slice) :
    (heap.append zero spare slice xs).2.array = slice.array ∨
      (heap.append zero spare slice xs).2.array = heap.arrays.length := by
  rcases append_cases zero spare xs heap slice with ⟨-, same⟩ | ⟨-, same⟩
  · exact Or.inl (by rw [same])
  · exact Or.inr (by rw [same])

theorem append_length (heap : Heap α) (slice : Slice) :
    (heap.append zero spare slice xs).2.length = slice.length + xs.length := by
  rcases append_cases zero spare xs heap slice with ⟨-, same⟩ | ⟨-, same⟩ <;> rw [same]

end Append

end FizzbeeMbt.Slices
