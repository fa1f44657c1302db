import Mathlib.Logic.Function.Basic

/-! Decimal numbers padded with zeros to a least width. -/

namespace FizzbeeMbt.Digits

def zeroPadded (width n : Nat) : List Char :=
  List.replicate (width - (Nat.toDigits 10 n).length) '0' ++ Nat.toDigits 10 n

/-- Numbers keep their names apart, also where they outgrow the width. -/
theorem zeroPadded_injective (width : Nat) : Function.Injective (zeroPadded width) := by
  intro i j same
  have values := congrArg (fun digits => Nat.ofDigitChars 10 digits 0) same
  simpa [zeroPadded, Nat.ofDigitChars_append, Nat.ofDigitChars_replicate_zero,
    Nat.ofDigitChars_ten_toDigits] using values

/-- A name with a fixed text before and after its number tells the number. -/
theorem padded_name_injective (width : Nat) (first last : String) :
    Function.Injective fun n => first ++ String.ofList (zeroPadded width n) ++ last := by
  intro i j same
  have lists := congrArg String.toList same
  simp only [String.toList_append, String.toList_ofList] at lists
  exact zeroPadded_injective width
    (List.append_cancel_left (List.append_cancel_right lists))

end FizzbeeMbt.Digits
