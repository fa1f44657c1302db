import Mathlib.Logic.Function.Basic

/-! The UTF-8 bytes of strings. -/

namespace FizzbeeMbt.Strings

def utf8 (s : String) : List UInt8 := s.toUTF8.data.toList

theorem utf8_eq_flatMap (s : String) : utf8 s = s.toList.flatMap String.utf8EncodeChar := by
  unfold utf8
  rw [String.toUTF8, ← String.utf8Encode_toList]
  simp [List.utf8Encode]

theorem utf8_injective : Function.Injective utf8 := by
  intro s t same
  apply String.toByteArray_inj.mp
  apply ByteArray.ext
  exact Array.toList_inj.mp same

/-- Decoding, `none` where the bytes are not valid UTF-8. -/
def ofUtf8 (bytes : List UInt8) : Option String := String.fromUTF8? ⟨bytes.toArray⟩

theorem ofUtf8_utf8 (s : String) : ofUtf8 (utf8 s) = some s := by
  have whole : (⟨(utf8 s).toArray⟩ : ByteArray) = s.toByteArray := ByteArray.ext (by simp [utf8])
  unfold ofUtf8 String.fromUTF8?
  rw [whole, dif_pos s.isValidUTF8]
  rfl

end FizzbeeMbt.Strings
