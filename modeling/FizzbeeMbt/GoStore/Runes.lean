import FizzbeeMbt.GoStore.Json
import FizzbeeMbt.Lib.Strings

/-! Runes of UTF-8: what a JSON string makes of a byte string is always valid. -/

namespace FizzbeeMbt.GoStore

open FizzbeeMbt.Strings

theorem leadRange_width (b : UInt8) (width : Nat) (low high : UInt8)
    (found : leadRange b = some (width, low, high)) : 2 ≤ width := by
  unfold leadRange at found
  split_ifs at found <;> grind

/-- What a rune of more than one byte is made of. -/
theorem decodeRune_eq_some_iff (b : UInt8) (rest : Bytes) (width : Nat) :
    decodeRune (b :: rest) = some width ↔
      (b < 0x80 ∧ width = 1) ∨
        (¬b < 0x80 ∧ ∃ low high second tail, rest = second :: tail ∧
          leadRange b = some (width, low, high) ∧ low ≤ second ∧ second ≤ high ∧
            width ≤ tail.length + 2 ∧
              ∀ c ∈ tail.take (width - 2), 0x80 ≤ c ∧ c ≤ 0xBF) := by
  by_cases ascii : b < 0x80
  · simp [decodeRune, ascii, eq_comm]
  · cases range : leadRange b with
    | none => simp [decodeRune, ascii, range]
    | some found =>
        obtain ⟨width', low, high⟩ := found
        cases rest with
        | nil => simp [decodeRune, ascii, range]
        | cons second tail =>
            simp only [decodeRune, ascii, range, if_false, false_and, false_or, not_false_eq_true,
              true_and]
            constructor
            · intro read
              split_ifs at read with accepted
              obtain rfl := Option.some.inj read
              obtain ⟨above, below, enough, continued⟩ := accepted
              refine ⟨low, high, second, tail, rfl, rfl, above, below, enough, ?_⟩
              simpa using continued
            · rintro ⟨low', high', second', tail', split, same, above, below, enough, continued⟩
              obtain ⟨rfl, rfl⟩ := List.cons.inj split
              obtain ⟨rfl, rfl, rfl⟩ : width' = width ∧ low = low' ∧ high = high' := by
                simpa using same
              rw [if_pos ⟨above, below, enough, by simpa using continued⟩]

/-- A rune is read from its own bytes, whatever follows them. -/
theorem decodeRune_take (s : Bytes) (width : Nat) (found : decodeRune s = some width) :
    0 < width ∧ width ≤ s.length ∧
      ∀ rest, decodeRune (s.take width ++ rest) = some width := by
  cases s with
  | nil => simp [decodeRune] at found
  | cons b rest =>
      rcases (decodeRune_eq_some_iff b rest width).mp found with ⟨ascii, rfl⟩ |
        ⟨multi, low, high, second, tail, rfl, range, above, below, enough, continued⟩
      · refine ⟨Nat.one_pos, Nat.le_add_left 1 _, ?_⟩
        intro rest'
        exact (decodeRune_eq_some_iff b _ 1).mpr (Or.inl ⟨ascii, rfl⟩)
      · have wide := leadRange_width b width low high range
        obtain ⟨n, rfl⟩ : ∃ n, width = n + 2 := ⟨width - 2, by omega⟩
        have short : n ≤ tail.length := Nat.le_of_add_le_add_right enough
        refine ⟨Nat.succ_pos _, Nat.add_le_add_right short 2, ?_⟩
        intro rest'
        have own : (tail.take n ++ rest').take n = tail.take n := by
          rw [List.take_append_of_le_length (by simp [short]), List.take_take, Nat.min_self]
        apply (decodeRune_eq_some_iff b _ (n + 2)).mpr
        refine Or.inr ⟨multi, low, high, second, tail.take n ++ rest', rfl, range, above, below,
          ?_, ?_⟩
        · simp [short]
        · simpa [own] using continued

theorem validFrom_mono {fuel more : Nat} {s : Bytes} (valid : validFrom fuel s = true)
    (bound : fuel ≤ more) : validFrom more s = true := by
  induction fuel generalizing more s with
  | zero =>
      cases s with
      | nil => cases more <;> rfl
      | cons b rest => cases valid
  | succ fuel ih =>
      obtain ⟨more, rfl⟩ := Nat.exists_eq_succ_of_ne_zero (Nat.ne_zero_of_lt bound)
      cases s with
      | nil => rfl
      | cons b rest =>
          unfold validFrom at valid ⊢
          cases rune : decodeRune (b :: rest) with
          | none => simp [rune] at valid
          | some width =>
              simp only [rune] at valid ⊢
              exact ih valid (Nat.le_of_succ_le_succ bound)

/-- A valid string may begin with one more rune. -/
theorem utf8Valid_append (rune rest : Bytes) (whole : decodeRune rune = some rune.length)
    (valid : Utf8Valid rest) : Utf8Valid (rune ++ rest) := by
  obtain ⟨positive, -, alone⟩ := decodeRune_take rune _ whole
  have first : decodeRune (rune ++ rest) = some rune.length := by
    simpa using alone rest
  cases rune with
  | nil => cases positive
  | cons b tail =>
      have shorter : rest.length ≤ (tail ++ rest).length := by simp
      simp only [Utf8Valid, List.cons_append, List.length_cons, validFrom]
      rw [← List.cons_append, first]
      simpa using validFrom_mono valid shorter

theorem utf8Valid_jsonStringFrom (fuel : Nat) (s : Bytes) : Utf8Valid (jsonStringFrom fuel s) := by
  induction fuel generalizing s with
  | zero => cases s <;> rfl
  | succ fuel ih =>
      cases s with
      | nil => rfl
      | cons b rest =>
          unfold jsonStringFrom
          cases rune : decodeRune (b :: rest) with
          | none => exact utf8Valid_append replacementChar _ (by decide) (ih rest)
          | some width =>
              obtain ⟨-, bound, alone⟩ := decodeRune_take _ width rune
              have whole : decodeRune ((b :: rest).take width) = some width := by
                simpa using alone []
              apply utf8Valid_append _ _ _ (ih _)
              rw [whole, List.length_take_of_le bound]

/-- Whatever a string was, JSON gives valid UTF-8 back. -/
theorem utf8Valid_jsonString (s : Bytes) : Utf8Valid (jsonString s) :=
  utf8Valid_jsonStringFrom s.length s

section Chars

theorem continuation (n : Nat) :
    0x80 ≤ UInt8.ofNat (n % 64 + 0x80) ∧ UInt8.ofNat (n % 64 + 0x80) ≤ 0xBF := by
  have small : (n % 64 + 0x80) % 2 ^ 8 = n % 64 + 0x80 := by omega
  simp only [UInt8.le_iff_toNat_le, UInt8.toNat_ofNat', small]
  constructor
  · exact Nat.le_add_left _ _
  · simp
    omega

theorem lead_two (v : Nat) (above : 0x7f < v) (below : v ≤ 0x7ff) :
    ¬UInt8.ofNat (v / 64 % 32 + 0xc0) < 0x80 ∧
      leadRange (UInt8.ofNat (v / 64 % 32 + 0xc0)) = some (2, 0x80, 0xBF) := by
  have lead : (v / 64 % 32 + 0xc0) % 2 ^ 8 = v / 64 + 0xc0 := by omega
  simp only [leadRange, UInt8.lt_iff_toNat_lt, UInt8.le_iff_toNat_le, UInt8.toNat_ofNat', lead]
  constructor
  · simp
  · simp
    omega

/-- The second byte of three excludes overlong forms and the surrogates. -/
theorem lead_three (v : Nat) (above : 0x7ff < v) (below : v ≤ 0xffff)
    (scalar : v < 0xD800 ∨ 0xDFFF < v) :
    ¬UInt8.ofNat (v / 4096 % 16 + 0xe0) < 0x80 ∧
      ∃ low high, leadRange (UInt8.ofNat (v / 4096 % 16 + 0xe0)) = some (3, low, high) ∧
        low ≤ UInt8.ofNat (v / 64 % 64 + 0x80) ∧ UInt8.ofNat (v / 64 % 64 + 0x80) ≤ high := by
  have lead : (v / 4096 % 16 + 0xe0) % 2 ^ 8 = v / 4096 + 0xe0 := by omega
  have second : (v / 64 % 64 + 0x80) % 2 ^ 8 = v / 64 % 64 + 0x80 := by omega
  simp only [leadRange, UInt8.lt_iff_toNat_lt, UInt8.le_iff_toNat_le, ← UInt8.toNat_inj,
    UInt8.toNat_ofNat', lead, second]
  constructor
  · simp
  · simp
    split_ifs <;> first | omega | (simp; omega)

/-- The second byte of four excludes overlong forms and what lies above U+10FFFF. -/
theorem lead_four (v : Nat) (above : 0xffff < v) (below : v < 0x110000) :
    ¬UInt8.ofNat (v / 262144 % 8 + 0xf0) < 0x80 ∧
      ∃ low high, leadRange (UInt8.ofNat (v / 262144 % 8 + 0xf0)) = some (4, low, high) ∧
        low ≤ UInt8.ofNat (v / 4096 % 64 + 0x80) ∧
          UInt8.ofNat (v / 4096 % 64 + 0x80) ≤ high := by
  have lead : (v / 262144 % 8 + 0xf0) % 2 ^ 8 = v / 262144 + 0xf0 := by omega
  have second : (v / 4096 % 64 + 0x80) % 2 ^ 8 = v / 4096 % 64 + 0x80 := by omega
  simp only [leadRange, UInt8.lt_iff_toNat_lt, UInt8.le_iff_toNat_le, ← UInt8.toNat_inj,
    UInt8.toNat_ofNat', lead, second]
  constructor
  · simp
  · simp
    split_ifs <;> first | omega | (simp; omega)

theorem decodeRune_char (c : Char) :
    decodeRune (String.utf8EncodeChar c) = some (String.utf8EncodeChar c).length := by
  have scalar : c.val.toNat < 0xD800 ∨ 0xDFFF < c.val.toNat ∧ c.val.toNat < 0x110000 := c.valid
  unfold String.utf8EncodeChar
  generalize c.val.toNat = v at *
  simp only
  split_ifs with one two three
  · apply (decodeRune_eq_some_iff _ _ _).mpr
    refine Or.inl ⟨?_, rfl⟩
    simp only [UInt8.lt_iff_toNat_lt, UInt8.toNat_ofNat']
    simp
    omega
  · obtain ⟨multi, range⟩ := lead_two v (by omega) two
    apply (decodeRune_eq_some_iff _ _ _).mpr
    refine Or.inr ⟨multi, _, _, _, _, rfl, range, (continuation v).1, (continuation v).2,
      Nat.le_refl _, ?_⟩
    intro c member
    cases member
  · obtain ⟨multi, low, high, range, second⟩ := lead_three v (by omega) three (by omega)
    apply (decodeRune_eq_some_iff _ _ _).mpr
    refine Or.inr ⟨multi, low, high, _, _, rfl, range, second.1, second.2, Nat.le_refl _, ?_⟩
    intro c member
    obtain rfl : c = _ := List.mem_singleton.mp member
    exact continuation v
  · obtain ⟨multi, low, high, range, second⟩ := lead_four v (by omega) (by omega)
    apply (decodeRune_eq_some_iff _ _ _).mpr
    refine Or.inr ⟨multi, low, high, _, _, rfl, range, second.1, second.2, Nat.le_refl _, ?_⟩
    intro c member
    rcases List.mem_pair.mp member with rfl | rfl
    · exact continuation (v / 64)
    · exact continuation v

theorem utf8Valid_utf8 (s : String) : Utf8Valid (utf8 s) := by
  rw [utf8_eq_flatMap]
  induction s.toList with
  | nil => rfl
  | cons c rest ih => exact utf8Valid_append _ _ (decodeRune_char c) ih

end Chars

end FizzbeeMbt.GoStore
