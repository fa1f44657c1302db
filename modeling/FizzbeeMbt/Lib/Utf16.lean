import Mathlib.Data.List.Basic

/-! Codes of letters by words, and UTF-16 as one of them. -/

namespace FizzbeeMbt.Utf16

section Codes

variable {α β : Type*} {code : α → List β}

/-- No code continues another one, so that a text can be cut into its letters. -/
structure PrefixFree (code : α → List β) : Prop where
  filled : ∀ a, code a ≠ []
  first : ∀ a b x y, code a ++ x = code b ++ y → a = b

theorem PrefixFree.flatMap_injective (free : PrefixFree code) :
    Function.Injective fun text : List α => text.flatMap code := by
  intro text
  induction text with
  | nil =>
      intro text' same
      cases text' with
      | nil => rfl
      | cons b rest => exact absurd (List.append_eq_nil_iff.mp same.symm).1 (free.filled b)
  | cons a rest ih =>
      intro text' same
      cases text' with
      | nil => exact absurd (List.append_eq_nil_iff.mp same).1 (free.filled a)
      | cons b rest' =>
          simp only [List.flatMap_cons] at same
          obtain rfl := free.first _ _ _ _ same
          rw [ih (List.append_cancel_left same)]

end Codes

section Units

/-- A character as one code unit, or as two surrogates. -/
def units (c : Char) : List UInt16 :=
  if c.toNat < 0x10000 then [UInt16.ofNat c.toNat]
  else
    [UInt16.ofNat (0xD800 + (c.toNat - 0x10000) / 0x400),
      UInt16.ofNat (0xDC00 + (c.toNat - 0x10000) % 0x400)]

def utf16 (s : String) : List UInt16 := s.toList.flatMap units

theorem toNat_unit {n : Nat} (small : n < 0x10000) : (UInt16.ofNat n).toNat = n := by
  rw [UInt16.toNat_ofNat', Nat.mod_eq_of_lt (by omega)]

/-- A character is no surrogate. -/
theorem char_range (c : Char) : c.toNat < 0xD800 ∨ 0xDFFF < c.toNat ∧ c.toNat < 0x110000 := by
  have valid : c.val.toNat < 0xD800 ∨ 0xDFFF < c.val.toNat ∧ c.val.toNat < 0x110000 := c.valid
  exact valid

/-- The first unit of a character tells how many there are. -/
theorem units_one {c : Char} (small : c.toNat < 0x10000) :
    units c = [UInt16.ofNat c.toNat] ∧ (UInt16.ofNat c.toNat).toNat = c.toNat :=
  ⟨if_pos small, toNat_unit small⟩

theorem units_two {c : Char} (large : ¬c.toNat < 0x10000) :
    ∃ high low : UInt16, units c = [high, low] ∧
      high.toNat = 0xD800 + (c.toNat - 0x10000) / 0x400 ∧
      low.toNat = 0xDC00 + (c.toNat - 0x10000) % 0x400 := by
  have range := char_range c
  exact ⟨_, _, if_neg large, toNat_unit (by omega), toNat_unit (by omega)⟩

theorem units_prefixFree : PrefixFree units := by
  constructor
  · intro c
    unfold units
    split_ifs <;> simp
  · intro c d x y same
    have range := char_range c
    have range' := char_range d
    apply Char.toNat_inj.mp
    by_cases small : c.toNat < 0x10000
    · obtain ⟨one, value⟩ := units_one small
      by_cases small' : d.toNat < 0x10000
      · obtain ⟨one', value'⟩ := units_one small'
        rw [one, one'] at same
        rw [← value, ← value', (List.cons.inj same).1]
      · obtain ⟨high, low, two, top, -⟩ := units_two small'
        rw [one, two] at same
        have first := congrArg UInt16.toNat (List.cons.inj same).1
        omega
    · obtain ⟨high, low, two, top, bottom⟩ := units_two small
      by_cases small' : d.toNat < 0x10000
      · obtain ⟨one', value'⟩ := units_one small'
        rw [two, one'] at same
        have first := congrArg UInt16.toNat (List.cons.inj same).1
        omega
      · obtain ⟨high', low', two', top', bottom'⟩ := units_two small'
        rw [two, two'] at same
        obtain ⟨first, rest⟩ := List.cons.inj same
        have highs := congrArg UInt16.toNat first
        have lows := congrArg UInt16.toNat (List.cons.inj rest).1
        omega

theorem utf16_injective : Function.Injective utf16 := by
  intro s s' same
  exact String.toList_injective (units_prefixFree.flatMap_injective same)

end Units

end FizzbeeMbt.Utf16
