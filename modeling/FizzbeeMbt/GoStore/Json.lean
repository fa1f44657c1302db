import FizzbeeMbt.Lib.Maps
import Mathlib.Data.List.Sort

/-! What `encoding/json` makes of the `map[string][]byte` of one segment. -/

namespace FizzbeeMbt.GoStore

open FizzbeeMbt.Maps

abbrev Bytes := List UInt8

/-- Width and bounds of the second byte for a leading byte of a multi-byte rune:
the `first` table of Go's `unicode/utf8` with its accept ranges. -/
def leadRange (b : UInt8) : Option (Nat × UInt8 × UInt8) :=
  if 0xC2 ≤ b ∧ b ≤ 0xDF then some (2, 0x80, 0xBF)
  else if b = 0xE0 then some (3, 0xA0, 0xBF)
  else if 0xE1 ≤ b ∧ b ≤ 0xEC then some (3, 0x80, 0xBF)
  else if b = 0xED then some (3, 0x80, 0x9F)
  else if 0xEE ≤ b ∧ b ≤ 0xEF then some (3, 0x80, 0xBF)
  else if b = 0xF0 then some (4, 0x90, 0xBF)
  else if 0xF1 ≤ b ∧ b ≤ 0xF3 then some (4, 0x80, 0xBF)
  else if b = 0xF4 then some (4, 0x80, 0x8F)
  else none

/-- Width of the rune a string starts with, `none` where `utf8.DecodeRune`
reports `RuneError` of width one. -/
def decodeRune : Bytes → Option Nat
  | [] => none
  | b :: rest =>
      if b < 0x80 then some 1 else
      match leadRange b, rest with
      | some (width, low, high), second :: tail =>
          if low ≤ second ∧ second ≤ high ∧ width ≤ tail.length + 2 ∧
              (tail.take (width - 2)).all (fun c => 0x80 ≤ c && c ≤ 0xBF) then some width
          else none
      | _, _ => none

def validFrom : Nat → Bytes → Bool
  | _, [] => true
  | 0, _ :: _ => false
  | fuel + 1, b :: rest =>
      match decodeRune (b :: rest) with
      | some width => validFrom fuel ((b :: rest).drop width)
      | none => false

/-- `utf8.Valid`: a rune takes at least one byte, so the length is enough fuel. -/
def Utf8Valid (s : Bytes) : Prop := validFrom s.length s = true

instance (s : Bytes) : Decidable (Utf8Valid s) := inferInstanceAs (Decidable (_ = true))

/-- The three bytes of U+FFFD. -/
def replacementChar : Bytes := [0xEF, 0xBF, 0xBD]

def jsonStringFrom : Nat → Bytes → Bytes
  | _, [] => []
  | 0, _ :: _ => []
  | fuel + 1, b :: rest =>
      match decodeRune (b :: rest) with
      | some width => (b :: rest).take width ++ jsonStringFrom fuel ((b :: rest).drop width)
      | none => replacementChar ++ jsonStringFrom fuel rest

/-- The string that comes back when `s` is written and read as a JSON string:
every byte that starts no valid rune turns into U+FFFD. -/
def jsonString (s : Bytes) : Bytes := jsonStringFrom s.length s

theorem jsonStringFrom_valid (fuel : Nat) (s : Bytes) (valid : validFrom fuel s = true) :
    jsonStringFrom fuel s = s := by
  induction fuel generalizing s with
  | zero =>
      cases s with
      | nil => rfl
      | cons b rest => simp [validFrom] at valid
  | succ fuel ih =>
      cases s with
      | nil => rfl
      | cons b rest =>
          unfold validFrom at valid
          unfold jsonStringFrom
          cases rune : decodeRune (b :: rest) with
          | none => simp [rune] at valid
          | some width =>
              simp only [rune] at valid ⊢
              rw [ih _ valid, List.take_append_drop]

theorem jsonString_valid (s : Bytes) (valid : Utf8Valid s) : jsonString s = s :=
  jsonStringFrom_valid s.length s valid

/-- A stored document: the members of a JSON object in textual order with their
strings read back and their base64 values decoded, or a text that does not decode
into a `map[string][]byte`. -/
inductive Data where
  | object (members : List (Bytes × Bytes))
  | undecodable
  deriving DecidableEq, Repr

/-- `json.Marshal` writes the members in the order of their keys. -/
def Marshal (kvPairs : Map Bytes Bytes) : Data :=
  .object ((kvPairs.entryList.insertionSort (fun a b => a.1 ≤ b.1)).map
    fun entry => (jsonString entry.1, entry.2))

/-- `json.Unmarshal` assigns member after member; `none` is its error. -/
def Unmarshal : Data → Option (Map Bytes Bytes)
  | .object members => some (Map.ofEntries members)
  | .undecodable => none

/-- Maps whose keys are valid UTF-8 come back as they were. -/
theorem unmarshal_marshal (kvPairs : Map Bytes Bytes)
    (valid : ∀ k, kvPairs.lookup k ≠ none → Utf8Valid k) :
    ∃ decoded, Unmarshal (Marshal kvPairs) = some decoded ∧
      ∀ k, decoded.lookup k = kvPairs.lookup k := by
  let sorted := kvPairs.entryList.insertionSort (fun a b => a.1 ≤ b.1)
  have permuted : sorted.Perm kvPairs.entryList := List.perm_insertionSort _ _
  have distinct : (sorted.map Prod.fst).Nodup :=
    (permuted.map Prod.fst).nodup_iff.mpr (entryList_distinct kvPairs)
  have unchanged : sorted.map (fun entry => (jsonString entry.1, entry.2)) = sorted := by
    apply (List.map_congr_left _).trans (List.map_id sorted)
    intro entry member
    have listed : entry ∈ kvPairs.entryList := permuted.mem_iff.mp member
    have found : kvPairs.lookup entry.1 = some entry.2 := by
      rw [← lookup_entryList]
      exact (lookup_eq_some_iff_mem _ (entryList_distinct kvPairs) _ _).mpr listed
    have key : jsonString entry.1 = entry.1 := jsonString_valid _ (valid _ (by simp [found]))
    rw [key]
    rfl
  refine ⟨Map.ofEntries sorted, ?_, ?_⟩
  · exact congrArg (fun members => some (Map.ofEntries members)) unchanged
  · intro k
    rw [lookup_ofEntries_distinct sorted distinct, lookup_perm distinct permuted,
      lookup_entryList]

end FizzbeeMbt.GoStore
