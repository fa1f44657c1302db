import FizzbeeMbt.Lib.Trim
import Mathlib.Data.List.Infix
import Mathlib.Data.List.Sort

/-! How the TypeScript and the Java test adapter of the todo app report its list: both
read the cards of the page, sort what they read by id and write it as one string. -/

namespace FizzbeeMbt.TodoAdapters

open FizzbeeMbt.Trim

section Texts

/-- The UTF-16 code units of a JavaScript or Java string. -/
abbrev Text := List UInt16

def unit (c : Char) : UInt16 := UInt16.ofNat c.toNat

/-- A string literal of the sources; all of them are ASCII. -/
def lit (s : String) : Text := s.toList.map unit

def digits (n : Nat) : Text := (Nat.toDigits 10 n).map unit

/-- An integer as either language prints it. -/
def decimal : Int → Text
  | .ofNat n => digits n
  | .negSucc n => unit '-' :: digits (n + 1)

def isDigit (c : UInt16) : Bool := unit '0' ≤ c && c ≤ unit '9'

def digitsValue (s : Text) : Nat :=
  s.foldl (fun value c => 10 * value + (c.toNat - 48)) 0

/-- What Playwright tells of a card: two of its attributes, and the text content of the
element in it with a given test id, `none` standing for null. -/
structure Card where
  testid : Text
  cls : Option Text
  textContent : Text → Option Text

def TITLE_PREFIX : Text := lit "Sample Title "

end Texts

namespace Ts

/-- What `trim` strips: the code units of WhiteSpace and LineTerminator. -/
def isBlank (c : UInt16) : Bool :=
  (0x09 ≤ c && c ≤ 0x0D) || c = 0x20 || c = 0xA0 || c = 0x1680 ||
    (0x2000 ≤ c && c ≤ 0x200A) || c = 0x2028 || c = 0x2029 || c = 0x202F || c = 0x205F ||
    c = 0x3000 || c = 0xFEFF

def hexValue (c : UInt16) : Option Nat :=
  if isDigit c then some (c.toNat - 48)
  else if unit 'a' ≤ c ∧ c ≤ unit 'f' then some (c.toNat - 87)
  else if unit 'A' ≤ c ∧ c ≤ unit 'F' then some (c.toNat - 55)
  else none

/-- The number that the longest run of digits at the start of a text spells. -/
def magnitude (s : Text) : Option Nat :=
  if s.take 2 = lit "0x" ∨ s.take 2 = lit "0X" then
    match (s.drop 2).map hexValue |>.takeWhile Option.isSome with
    | [] => none
    | values => some (values.foldl (fun value digit => 16 * value + digit.getD 0) 0)
  else
    match s.takeWhile isDigit with
    | [] => none
    | run => some (digitsValue run)

/-- `Number.MAX_SAFE_INTEGER`. -/
def MAX_SAFE_INTEGER : Nat := 9007199254740991

/-- `parseInt` without a radix; `none` where it returns NaN or rounds, a number with
which the adapter goes on. No test id of the app spells such a number. -/
def parseInt (s : Text) : Option Int :=
  let s := s.dropWhile isBlank
  let negative := s.head? = some (unit '-')
  let signed := negative || s.head? = some (unit '+')
  match magnitude (if signed then s.tail else s) with
  | none => none
  | some n =>
      if n ≤ MAX_SAFE_INTEGER then some (if negative then -(n : Int) else n) else none

structure TodoRecord where
  id : Int
  value : Text
  deleted : Bool
  pinned : Bool
  deriving DecidableEq, Repr

def getValueFromTitle (originalTitle : Text) : Text :=
  let title := trim isBlank originalTitle
  if TITLE_PREFIX <+: title then trim isBlank (title.drop TITLE_PREFIX.length) else title

/-- `none` where the id is no number that `parseInt` reads exactly; the adapter then
reports the card with NaN or the rounded id. -/
def extractTodo (card : Card) : Option TodoRecord :=
  let parts := card.testid.splitOn (unit '-')
  match parts.getLast?.bind parseInt with
  | none => none
  | some id =>
      let titleText := card.textContent (lit "todo-title-" ++ decimal id)
      let value := getValueFromTitle (titleText.getD [])
      let pinned := card.cls.any fun cls => lit "pinned" <:+: cls
      some ⟨id, value, false, pinned⟩

def toFizzBeeFormat (record : TodoRecord) : Text :=
  let sortedEntries : List (Text × Text) :=
    [(lit "deleted", if record.deleted then lit "True" else lit "False"),
      (lit "id", decimal record.id),
      (lit "pinned", if record.pinned then lit "True" else lit "False"),
      (lit "value", lit "\"" ++ record.value ++ lit "\"")]
  let parts := sortedEntries.map fun entry => entry.1 ++ lit " = " ++ entry.2
  lit "record(" ++ (lit ", ").intercalate parts ++ lit ")"

def toFizzBeeFormatList (records : List TodoRecord) : Text :=
  lit "[" ++ (lit ", ").intercalate (records.map toFizzBeeFormat) ++ lit "]"

def actionListTodo (cards : List Card) : Option Text :=
  match cards.mapM extractTodo with
  | none => none
  | some results =>
      some (toFizzBeeFormatList (results.insertionSort fun a b => a.id - b.id ≤ 0))

end Ts

namespace Java

/-- What `String.trim` strips. -/
def isBlank (c : UInt16) : Bool := c ≤ 0x20

/-- `String.split` drops the empty parts at the end. -/
def split (s : Text) (separator : UInt16) : List Text :=
  if separator ∈ s then (s.splitOn separator).rdropWhile List.isEmpty else [s]

def MAX_VALUE : Nat := 2147483647

/-- `Integer.parseInt` on ASCII; `none` is its NumberFormatException. -/
def parseInt (s : Text) : Option Int :=
  let negative := s.head? = some (unit '-')
  let signed := negative || s.head? = some (unit '+')
  let rest := if signed then s.tail else s
  let n := digitsValue rest
  if rest ≠ [] ∧ rest.all isDigit ∧ n ≤ (if negative then MAX_VALUE + 1 else MAX_VALUE) then
    some (if negative then -(n : Int) else n)
  else none

inductive JavaObject where
  | integer (n : Int)
  | string (s : Text)
  | boolean (b : Bool)
  deriving DecidableEq, Repr

/-- The entries of a `TreeMap<String, Object>`, in the order of their keys. -/
abbrev TreeMap := List (Text × JavaObject)

def TreeMap.put (key : Text) (value : JavaObject) : TreeMap → TreeMap
  | [] => [(key, value)]
  | entry :: rest =>
      if key = entry.1 then (key, value) :: rest
      else if key < entry.1 then (key, value) :: entry :: rest
      else entry :: TreeMap.put key value rest

def getValueFromTitle (originalTitle : Option Text) : Text :=
  let title := match originalTitle with
    | some originalTitle => trim isBlank originalTitle
    | none => []
  if TITLE_PREFIX <+: title then trim isBlank (title.drop TITLE_PREFIX.length) else title

def extractTodo (card : Card) : Option TreeMap :=
  let parts := split card.testid (unit '-')
  match parts.getLast?.bind parseInt with
  | none => none
  | some id =>
      let value := getValueFromTitle (card.textContent (lit "todo-title-" ++ decimal id))
      let pinned := match card.cls with
        | some cls => decide (lit "pinned" <:+: cls)
        | none => false
      some (TreeMap.put (lit "pinned") (.boolean pinned)
        (TreeMap.put (lit "deleted") (.boolean false)
          (TreeMap.put (lit "value") (.string value)
            (TreeMap.put (lit "id") (.integer id) []))))

/-- `(Integer) m.get("id")`; every map of `extractTodo` has an id. -/
def getId (m : TreeMap) : Int :=
  match m.lookup (lit "id") with
  | some (.integer id) => id
  | _ => 0

def append (value : JavaObject) : Text :=
  match value with
  | .string s => lit "\"" ++ s ++ lit "\""
  | .boolean b => if b then lit "True" else lit "False"
  | .integer n => decimal n

def appendEntries : TreeMap → Text
  | [] => []
  | entry :: rest =>
      entry.1 ++ lit " = " ++ append entry.2 ++ (if rest.isEmpty then [] else lit ", ") ++
        appendEntries rest

def toFizzBeeFormat (record : TreeMap) : Text :=
  lit "record(" ++ appendEntries record ++ lit ")"

def appendRecords : List TreeMap → Text
  | [] => []
  | record :: rest =>
      toFizzBeeFormat record ++ (if rest.isEmpty then [] else lit ", ") ++ appendRecords rest

def toFizzBeeFormatList (records : List TreeMap) : Text :=
  lit "[" ++ appendRecords records ++ lit "]"

def actionListTodo (cards : List Card) : Option Text :=
  match cards.mapM extractTodo with
  | none => none
  | some results =>
      some (toFizzBeeFormatList (results.insertionSort fun a b => getId a ≤ getId b))

end Java

end FizzbeeMbt.TodoAdapters
