import FizzbeeMbt.Lib.Delimiters
import FizzbeeMbt.TodoAdapters.Adapters

/-! Decimal numerals in test ids, as the two adapters read them. -/

namespace FizzbeeMbt.TodoAdapters

open FizzbeeMbt.Delimiters

section Digits

/-- A decimal numeral, which may start with zeros. -/
def numeral (zeros n : Nat) : Text := List.replicate zeros (unit '0') ++ digits n

theorem numeral_eq_map (zeros n : Nat) :
    numeral zeros n = (List.replicate zeros '0' ++ Nat.toDigits 10 n).map unit := by
  simp [numeral, digits]

theorem digit_chars (zeros n : Nat) :
    ∀ c ∈ List.replicate zeros '0' ++ Nat.toDigits 10 n, c.isDigit = true := by
  intro c member
  rcases List.mem_append.mp member with zero | digit
  · rw [(List.mem_replicate.mp zero).2]
    rfl
  · exact Nat.isDigit_of_mem_toDigits (by decide) (by decide) digit

theorem toNat_unit {c : Char} (digit : c.isDigit = true) :
    (unit c).toNat = c.toNat ∧ 48 ≤ c.toNat ∧ c.toNat ≤ 57 := by
  have bounds : 48 ≤ c.toNat ∧ c.toNat ≤ 57 := by
    simpa [Char.isDigit, UInt32.le_iff_toNat_le] using digit
  refine ⟨?_, bounds⟩
  rw [unit, UInt16.toNat_ofNat', Nat.mod_eq_of_lt (by omega)]

theorem isDigit_of_mem_numeral {zeros n : Nat} {c : UInt16} (member : c ∈ numeral zeros n) :
    isDigit c = true := by
  rw [numeral_eq_map] at member
  obtain ⟨char, among, rfl⟩ := List.mem_map.mp member
  obtain ⟨same, low, high⟩ := toNat_unit (digit_chars zeros n char among)
  simp only [isDigit, Bool.and_eq_true, decide_eq_true_eq, UInt16.le_iff_toNat_le, same]
  exact ⟨low, high⟩

theorem digitsValue_numeral (zeros n : Nat) : digitsValue (numeral zeros n) = n := by
  have spelled : ∀ (cs : List Char) (value : Nat), (∀ c ∈ cs, c.isDigit = true) →
      (cs.map unit).foldl (fun value c => 10 * value + (c.toNat - 48)) value =
        Nat.ofDigitChars 10 cs value := by
    intro cs
    induction cs with
    | nil => intro value _; rfl
    | cons c cs ih =>
        intro value all
        rw [List.map_cons, List.foldl_cons, Nat.ofDigitChars_cons,
          (toNat_unit (all c List.mem_cons_self)).1]
        exact ih _ fun d member => all d (List.mem_cons_of_mem c member)
  rw [digitsValue, numeral_eq_map, spelled _ _ (digit_chars zeros n), Nat.ofDigitChars_append]
  simp

theorem numeral_ne_nil (zeros n : Nat) : numeral zeros n ≠ [] := by
  intro empty
  rw [numeral, List.append_eq_nil_iff, digits, List.map_eq_nil_iff] at empty
  exact Nat.toDigits_ne_nil empty.2

/-- A code unit that is no digit stands nowhere in a numeral. -/
theorem notMem_numeral {c : UInt16} (other : isDigit c = false) (zeros n : Nat) :
    c ∉ numeral zeros n := by
  intro member
  rw [isDigit_of_mem_numeral member] at other
  cases other

theorem head?_numeral {c : UInt16} (other : isDigit c = false) (zeros n : Nat) :
    (numeral zeros n).head? ≠ some c := by
  intro first
  exact notMem_numeral other zeros n (List.mem_of_head? first)

theorem digits_injective : Function.Injective digits := by
  intro m n same
  have whole : numeral 0 m = numeral 0 n := same
  rw [← digitsValue_numeral 0 m, whole, digitsValue_numeral]

theorem notMem_decimal {c : UInt16} (other : isDigit c = false) (differ : c ≠ unit '-')
    (n : Int) : c ∉ decimal n := by
  cases n with
  | ofNat n => exact notMem_numeral other 0 n
  | negSucc n =>
      intro member
      rcases List.mem_cons.mp member with same | among
      · exact differ same
      · exact notMem_numeral other 0 (n + 1) among

theorem decimal_injective : Function.Injective decimal := by
  have signed : ∀ m n : Nat, digits m ≠ unit '-' :: digits n := by
    intro m n same
    have first : unit '-' ∈ numeral 0 m := by
      change unit '-' ∈ digits m
      rw [same]
      exact List.mem_cons_self
    exact notMem_numeral (by decide) 0 m first
  intro m n same
  cases m with
  | ofNat m =>
      cases n with
      | ofNat n => exact congrArg Int.ofNat (digits_injective same)
      | negSucc n => exact absurd same (signed m _)
  | negSucc m =>
      cases n with
      | ofNat n => exact absurd same.symm (signed n _)
      | negSucc n =>
          have values := digits_injective (List.cons.inj same).2
          exact congrArg Int.negSucc (Nat.succ.inj values)

end Digits

section TestIds

/-- `todo-card-<n>` for a decimal `n`. -/
def testId (zeros : Nat) (n : Int) : Text :=
  lit "todo-card-" ++ ((if n < 0 then [unit '-'] else []) ++ numeral zeros n.natAbs)

theorem testId_cut (zeros : Nat) (n : Int) :
    ∃ left, testId zeros n = left ++ unit '-' :: numeral zeros n.natAbs := by
  unfold testId
  split
  · exact ⟨lit "todo-card-", rfl⟩
  · have stem : lit "todo-card-" = lit "todo-card" ++ [unit '-'] := by simp [lit]
    exact ⟨lit "todo-card", by rw [stem]; simp⟩

/-- The part after the last hyphen is the numeral without its sign. -/
theorem last_of_testId (zeros : Nat) (n : Int) :
    ((testId zeros n).splitOn (unit '-')).getLast? = some (numeral zeros n.natAbs) := by
  obtain ⟨left, cut⟩ := testId_cut zeros n
  rw [cut]
  exact getLast?_splitOn left (notMem_numeral (by decide) zeros n.natAbs)

theorem isBlank_digit {c : UInt16} (digit : isDigit c = true) : Ts.isBlank c = false := by
  simp only [isDigit, unit, Bool.and_eq_true, decide_eq_true_eq, UInt16.le_iff_toNat_le] at digit
  obtain ⟨low, high⟩ : 48 ≤ c.toNat ∧ c.toNat ≤ 57 := digit
  simp [Ts.isBlank, UInt16.le_iff_toNat_le, ← UInt16.toNat_inj]
  omega

theorem magnitude_numeral (zeros n : Nat) : Ts.magnitude (numeral zeros n) = some n := by
  have prefixed : ∀ marker : String, unit 'x' ∈ lit marker ∨ unit 'X' ∈ lit marker →
      (numeral zeros n).take 2 ≠ lit marker := by
    intro marker hex same
    have among : ∀ c ∈ lit marker, isDigit c = true := by
      intro c member
      rw [← same] at member
      exact isDigit_of_mem_numeral (List.mem_of_mem_take member)
    rcases hex with lower | upper
    · exact absurd (among _ lower) (by decide)
    · exact absurd (among _ upper) (by decide)
  have plain : ¬((numeral zeros n).take 2 = lit "0x" ∨ (numeral zeros n).take 2 = lit "0X") := by
    rintro (lower | upper)
    · exact prefixed "0x" (Or.inl (by decide)) lower
    · exact prefixed "0X" (Or.inr (by decide)) upper
  have run : (numeral zeros n).takeWhile isDigit = numeral zeros n :=
    List.takeWhile_eq_self_iff.mpr fun c member => isDigit_of_mem_numeral member
  rw [Ts.magnitude, if_neg plain, run]
  cases spelled : numeral zeros n with
  | nil => exact absurd spelled (numeral_ne_nil zeros n)
  | cons c rest =>
      have value := digitsValue_numeral zeros n
      rw [spelled] at value
      exact congrArg some value

theorem ts_parseInt_numeral (zeros n : Nat) (safe : n ≤ Ts.MAX_SAFE_INTEGER) :
    Ts.parseInt (numeral zeros n) = some (n : Int) := by
  have unblank : (numeral zeros n).dropWhile Ts.isBlank = numeral zeros n := by
    cases spelled : numeral zeros n with
    | nil => rfl
    | cons c rest =>
        have member : c ∈ numeral zeros n := spelled ▸ List.mem_cons_self
        have digit := isDigit_of_mem_numeral member
        rw [List.dropWhile_cons_of_neg (by simp [isBlank_digit digit])]
  have minus := head?_numeral (c := unit '-') (by decide) zeros n
  have plus := head?_numeral (c := unit '+') (by decide) zeros n
  simp [Ts.parseInt, unblank, minus, plus, magnitude_numeral, safe]

theorem java_parseInt_numeral (zeros n : Nat) :
    Java.parseInt (numeral zeros n) = if n ≤ Java.MAX_VALUE then some (n : Int) else none := by
  have minus := head?_numeral (c := unit '-') (by decide) zeros n
  have plus := head?_numeral (c := unit '+') (by decide) zeros n
  have all : (numeral zeros n).all isDigit = true :=
    List.all_eq_true.mpr fun c member => isDigit_of_mem_numeral member
  simp only [Java.parseInt, minus, plus, decide_false, Bool.or_false, Bool.false_eq_true,
    if_false, numeral_ne_nil, digitsValue_numeral, all, ne_eq, not_false_eq_true, true_and]

/-- The last part of a test id is not empty, so that Java splits it like JavaScript. -/
theorem java_split_testId (zeros : Nat) (n : Int) :
    Java.split (testId zeros n) (unit '-') = (testId zeros n).splitOn (unit '-') := by
  obtain ⟨left, cut⟩ := testId_cut zeros n
  have holds : unit '-' ∈ testId zeros n := by simp [cut]
  rw [Java.split, if_pos holds, List.rdropWhile_eq_self_iff]
  intro filled
  have last := last_of_testId zeros n
  rw [List.getLast?_eq_some_getLast filled] at last
  rw [Option.some.inj last]
  simp [numeral_ne_nil]

theorem ts_number_of_testId (zeros : Nat) (n : Int) (safe : n.natAbs ≤ Ts.MAX_SAFE_INTEGER) :
    ((testId zeros n).splitOn (unit '-')).getLast?.bind Ts.parseInt = some (n.natAbs : Int) := by
  rw [last_of_testId, Option.bind_some, ts_parseInt_numeral zeros _ safe]

theorem java_number_of_testId (zeros : Nat) (n : Int) :
    (Java.split (testId zeros n) (unit '-')).getLast?.bind Java.parseInt =
      if n.natAbs ≤ Java.MAX_VALUE then some (n.natAbs : Int) else none := by
  rw [java_split_testId, last_of_testId, Option.bind_some, java_parseInt_numeral]

end TestIds

end FizzbeeMbt.TodoAdapters
