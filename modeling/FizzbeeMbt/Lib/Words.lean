import Mathlib.Algebra.Group.Int.Defs
import Mathlib.Data.List.Basic

/-! Steps of one in the fixed-width integers, away from the end of their range. -/

namespace FizzbeeMbt.Words

theorem toInt32_succ (x : Int32) (below : x.toInt < 2 ^ 31 - 1) : (x + 1).toInt = x.toInt + 1 := by
  have low := x.le_toInt
  rw [Int32.toInt_add, Int32.toInt_one]
  apply Int.bmod_eq_of_le
  · omega
  · omega

theorem toInt32_pred (x : Int32) (above : -2 ^ 31 < x.toInt) : (x - 1).toInt = x.toInt - 1 := by
  have high := x.toInt_lt
  rw [Int32.toInt_sub, Int32.toInt_one]
  apply Int.bmod_eq_of_le
  · omega
  · omega

theorem toInt64_succ (x : Int64) (below : x.toInt < 2 ^ 63 - 1) : (x + 1).toInt = x.toInt + 1 := by
  have low := x.le_toInt
  rw [Int64.toInt_add, Int64.toInt_one]
  apply Int.bmod_eq_of_le
  · omega
  · omega

theorem toInt64_pred (x : Int64) (above : -2 ^ 63 < x.toInt) : (x - 1).toInt = x.toInt - 1 := by
  have high := x.toInt_lt
  rw [Int64.toInt_sub, Int64.toInt_one]
  apply Int.bmod_eq_of_le
  · omega
  · omega

theorem toInt32_add (x y : Int32) (low : -2 ^ 31 ≤ x.toInt + y.toInt)
    (high : x.toInt + y.toInt < 2 ^ 31) : (x + y).toInt = x.toInt + y.toInt := by
  rw [Int32.toInt_add]
  exact Int.bmod_eq_of_le low high

theorem toInt32_min (x y : Int32) : (min x y).toInt = min x.toInt y.toInt := by
  simp only [min, Int32.le_iff_toInt_le]
  split <;> rfl

theorem toInt32_max (x y : Int32) : (max x y).toInt = max x.toInt y.toInt := by
  simp only [max, Int32.le_iff_toInt_le]
  split <;> rfl

end FizzbeeMbt.Words
