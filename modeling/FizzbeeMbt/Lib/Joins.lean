import FizzbeeMbt.Lib.Delimiters
import Mathlib.Data.List.Forall2

/-! Keyed texts written one after the other, each behind a gap that names its key, and what
such a writing tells of where the gaps between the texts are. -/

namespace FizzbeeMbt.Joins

open FizzbeeMbt.Delimiters

variable {α κ : Type*}

section Writing

variable (gap : κ → List α)

/-- A text, and after it the keyed texts behind their gaps. -/
def joined (text : List α) : List (κ × List α) → List α
  | [] => text
  | item :: rest => text ++ (gap item.1 ++ joined item.2 rest)

/-- `parts` are an item cut at gaps that stand in its text. -/
def Cut (item : κ × List α) (parts : List (κ × List α)) : Prop :=
  ∃ text rest, parts = (item.1, text) :: rest ∧ joined gap text rest = item.2

/-- Cut at gaps in their texts, both lists become one. -/
def Alike (items items' : List (κ × List α)) : Prop :=
  ∃ parts parts', List.Forall₂ (Cut gap) items parts ∧ List.Forall₂ (Cut gap) items' parts' ∧
    parts.flatten = parts'.flatten

variable {gap}

theorem joined_append (text : List α) (front : List (κ × List α)) (item : κ × List α)
    (back : List (κ × List α)) :
    joined gap text (front ++ item :: back) =
      joined gap text front ++ (gap item.1 ++ joined gap item.2 back) := by
  induction front generalizing text with
  | nil => rfl
  | cons first front ih =>
      rw [List.cons_append, joined, joined, ih]
      simp only [List.append_assoc]

theorem prefix_joined (text : List α) (rest : List (κ × List α)) :
    text <+: joined gap text rest := by
  cases rest with
  | nil => exact List.prefix_rfl
  | cons item rest => exact List.prefix_append text _

theorem cut_self (item : κ × List α) : Cut gap item [item] := ⟨item.2, [], rfl, rfl⟩

theorem Alike.symm {items items' : List (κ × List α)} (alike : Alike gap items items') :
    Alike gap items' items := by
  obtain ⟨parts, parts', cuts, cuts', same⟩ := alike
  exact ⟨parts', parts, cuts', cuts, same.symm⟩

theorem alike_nil : Alike gap [] [] := ⟨[], [], .nil, .nil, rfl⟩

theorem Alike.cons {items items' : List (κ × List α)} (item : κ × List α)
    (alike : Alike gap items items') : Alike gap (item :: items) (item :: items') := by
  obtain ⟨parts, parts', cuts, cuts', same⟩ := alike
  refine ⟨[item] :: parts, [item] :: parts', .cons (cut_self item) cuts,
    .cons (cut_self item) cuts', ?_⟩
  rw [List.flatten_cons, List.flatten_cons, same]

/-- A text put before another one with a gap between them can be cut off there. -/
theorem Alike.cut {items items' : List (κ × List α)} {key : κ} {text : List α} (first : κ)
    (front : List α) (alike : Alike gap items ((key, text) :: items')) :
    Alike gap ((first, front) :: items) ((first, front ++ (gap key ++ text)) :: items') := by
  obtain ⟨parts, parts', cuts, cuts', same⟩ := alike
  obtain ⟨group, groups, ⟨start, tail, whole, written⟩, rest, rfl⟩ :=
    List.forall₂_cons_left_iff.mp cuts'
  have longer : Cut gap (first, front ++ (gap key ++ text)) ((first, front) :: group) := by
    refine ⟨front, group, rfl, ?_⟩
    rw [whole, joined, written]
  refine ⟨[(first, front)] :: parts, ((first, front) :: group) :: groups,
    .cons (cut_self _) cuts, .cons longer rest, ?_⟩
  rw [List.flatten_cons, same]
  rfl

/-- The parts of a list are written as the list is. -/
theorem joined_of_cuts {key : κ} {text : List α} {rest : List (κ × List α)}
    {parts : List (List (κ × List α))}
    (cuts : List.Forall₂ (Cut gap) ((key, text) :: rest) parts) :
    ∃ start tail, parts.flatten = (key, start) :: tail ∧
      joined gap start tail = joined gap text rest := by
  induction rest generalizing key text parts with
  | nil =>
      obtain ⟨group, groups, ⟨start, tail, rfl, written⟩, none, rfl⟩ :=
        List.forall₂_cons_left_iff.mp cuts
      obtain rfl := List.forall₂_nil_left_iff.mp none
      exact ⟨start, tail, by simp, written⟩
  | cons item rest ih =>
      obtain ⟨group, groups, ⟨start, front, rfl, written⟩, others, rfl⟩ :=
        List.forall₂_cons_left_iff.mp cuts
      obtain ⟨next, back, flat, same⟩ := ih others
      refine ⟨start, front ++ (item.1, next) :: back, by rw [List.flatten_cons, flat]; rfl, ?_⟩
      rw [joined_append, written, same]
      rfl

/-- Lists that can be cut alike are written alike. -/
theorem Alike.joined_eq {key key' : κ} {text text' : List α} {rest rest' : List (κ × List α)}
    (alike : Alike gap ((key, text) :: rest) ((key', text') :: rest')) :
    key = key' ∧ joined gap text rest = joined gap text' rest' := by
  obtain ⟨parts, parts', cuts, cuts', same⟩ := alike
  obtain ⟨start, tail, flat, written⟩ := joined_of_cuts cuts
  obtain ⟨start', tail', flat', written'⟩ := joined_of_cuts cuts'
  rw [flat, flat', List.cons.injEq, Prod.mk.injEq] at same
  obtain ⟨⟨keys, rfl⟩, rfl⟩ := same
  exact ⟨keys, written.symm.trans written'⟩

theorem not_alike_nil_cons {item : κ × List α} {rest : List (κ × List α)} :
    ¬Alike gap [] (item :: rest) := by
  rintro ⟨parts, parts', cuts, cuts', same⟩
  obtain rfl := List.forall₂_nil_left_iff.mp cuts
  obtain ⟨start, tail, flat, -⟩ := joined_of_cuts cuts'
  rw [flat] at same
  cases same

end Writing

section Telling

/-- Each gap stands between two quotes, has none inside and a blank before the second, and
tells its key. -/
structure Quoted (gap : κ → List α) (quote blank : α) : Prop where
  framed : ∀ key, ∃ inside, gap key = quote :: (inside ++ [quote]) ∧ quote ∉ inside ∧
    inside.getLast? = some blank
  tells : ∀ {key key' x y}, gap key ++ x = gap key' ++ y → key = key' ∧ x = y

/-- No text of the list ends in the blank. -/
def Unblank (blank : α) (items : List (κ × List α)) : Prop :=
  ∀ item ∈ items, item.2.getLast? ≠ some blank

variable {gap : κ → List α} {quote blank : α}

theorem Unblank.tail {item : κ × List α} {items : List (κ × List α)}
    (ends : Unblank blank (item :: items)) : Unblank blank items :=
  fun other member => ends other (List.mem_cons_of_mem item member)

/-- What is left behind a cut ends like the whole. -/
theorem Unblank.suffix {key key' : κ} {front tail : List α} {items : List (κ × List α)}
    (ends : Unblank blank ((key, front ++ tail) :: items)) :
    Unblank blank ((key', tail) :: items) := by
  intro item member
  rcases List.mem_cons.mp member with rfl | among
  · intro last
    apply ends (key, front ++ tail) List.mem_cons_self
    simp only at last ⊢
    rw [List.getLast?_append, last, Option.some_or]
  · exact ends item (List.mem_cons_of_mem _ among)

/-- A text without quotes can be cut nowhere. -/
theorem Quoted.cut_of_free (quoted : Quoted gap quote blank) {item : κ × List α}
    {parts : List (κ × List α)} (free : quote ∉ item.2) (cut : Cut gap item parts) :
    parts = [item] := by
  obtain ⟨text, rest, rfl, written⟩ := cut
  cases rest with
  | nil =>
      rw [joined] at written
      rw [written]
  | cons next rest =>
      obtain ⟨inside, framed, -, -⟩ := quoted.framed next.1
      rw [← written, joined, framed] at free
      simp at free

/-- Without quotes in the texts, only equal lists can be cut alike. -/
theorem Quoted.eq_of_alike (quoted : Quoted gap quote blank) {items items' : List (κ × List α)}
    (free : ∀ item ∈ items, quote ∉ item.2) (free' : ∀ item ∈ items', quote ∉ item.2)
    (alike : Alike gap items items') : items = items' := by
  have whole : ∀ {items : List (κ × List α)} {parts}, (∀ item ∈ items, quote ∉ item.2) →
      List.Forall₂ (Cut gap) items parts → parts.flatten = items := by
    intro items parts free cuts
    induction cuts with
    | nil => rfl
    | cons cut _ ih =>
        rw [List.flatten_cons, quoted.cut_of_free (free _ List.mem_cons_self) cut,
          ih fun item member => free item (List.mem_cons_of_mem _ member)]
        rfl
  obtain ⟨parts, parts', cuts, cuts', same⟩ := alike
  rw [← whole free cuts, same, whole free' cuts']

variable [DecidableEq α]

/-- A gap that starts inside a text which does not end in the blank ends inside it. -/
theorem Quoted.inside (quoted : Quoted gap quote blank) {key key' : κ} {x y extra : List α}
    (same : gap key ++ x = extra ++ (gap key' ++ y)) (filled : extra ≠ [])
    (ends : extra.getLast? ≠ some blank) :
    ∃ tail, extra = gap key ++ tail ∧ x = tail ++ (gap key' ++ y) := by
  rcases List.append_eq_append_iff.mp same with ⟨tail, whole, rest⟩ | ⟨beyond, whole, rest⟩
  · exact ⟨tail, whole, rest⟩
  · obtain ⟨inside, first, free, last⟩ := quoted.framed key
    obtain ⟨inside', first', -, -⟩ := quoted.framed key'
    cases beyond with
    | nil =>
        rw [List.append_nil] at whole
        exact ⟨[], by rw [whole, List.append_nil], rest.symm⟩
    | cons c beyond =>
        -- the second gap would start at the closing quote of the first
        rw [first'] at rest
        obtain rfl := (List.cons.inj rest).1
        rw [first] at whole
        cases extra with
        | nil => exact absurd rfl filled
        | cons c extra =>
            have cut : inside ++ [quote] = extra ++ quote :: beyond := (List.cons.inj whole).2
            obtain rfl := eq_of_append_delimiter free cut
            rw [List.getLast?_cons, last] at ends
            exact absurd rfl ends

/-- Two writings that are equal start with the same text, or the one with the shorter text
has its first gap inside the longer text of the other. -/
theorem Quoted.split (quoted : Quoted gap quote blank) {text text' : List α}
    {rest rest' : List (κ × List α)} (ends : text'.getLast? ≠ some blank)
    (longer : text <+: text')
    (same : joined gap text rest = joined gap text' rest') :
    text = text' ∧ rest = [] ∧ rest' = [] ∨
      (∃ key next next' others others', text = text' ∧ rest = (key, next) :: others ∧
        rest' = (key, next') :: others' ∧ joined gap next others = joined gap next' others') ∨
      ∃ key next others tail, rest = (key, next) :: others ∧ text' = text ++ (gap key ++ tail) ∧
        joined gap next others = joined gap tail rest' := by
  obtain ⟨extra, rfl⟩ := longer
  cases rest with
  | nil =>
      cases rest' with
      | nil => exact Or.inl ⟨same, rfl, rfl⟩
      | cons item others =>
          obtain ⟨inside, framed, -, -⟩ := quoted.framed item.1
          have lengths := congrArg List.length same
          simp only [joined, framed, List.length_append, List.length_cons] at lengths
          omega
  | cons item others =>
      cases rest' with
      | nil =>
          have cut := List.append_cancel_left same
          exact Or.inr (Or.inr ⟨item.1, item.2, others, _, rfl, by rw [← cut], rfl⟩)
      | cons item' others' =>
          rw [joined, joined, List.append_assoc, List.append_cancel_left_eq] at same
          by_cases empty : extra = []
          · subst empty
            obtain ⟨keys, rest⟩ := quoted.tells same
            exact Or.inr (Or.inl ⟨item.1, item.2, item'.2, others, others',
              (List.append_nil text).symm, rfl, by rw [keys], rest⟩)
          · rw [List.getLast?_append_of_ne_nil _ empty] at ends
            obtain ⟨tail, whole, rest⟩ := quoted.inside same empty ends
            exact Or.inr (Or.inr ⟨item.1, item.2, others, tail, rfl, by rw [whole], rest⟩)

/-- Lists that are written alike can be cut alike. -/
theorem Quoted.alike_of_joined (quoted : Quoted gap quote blank) (key : κ) (text text' : List α)
    (rest rest' : List (κ × List α)) (ends : Unblank blank ((key, text) :: rest))
    (ends' : Unblank blank ((key, text') :: rest'))
    (same : joined gap text rest = joined gap text' rest') :
    Alike gap ((key, text) :: rest) ((key, text') :: rest') := by
  -- each cut takes a text off one of the lists
  induction size : rest.length + rest'.length using Nat.strongRecOn
    generalizing key text text' rest rest' with
  | _ total ih =>
      have shorter : ∀ {text text' rest rest'}, text <+: text' →
          rest.length + rest'.length = total → Unblank blank ((key, text) :: rest) →
          Unblank blank ((key, text') :: rest') → joined gap text rest = joined gap text' rest' →
          Alike gap ((key, text) :: rest) ((key, text') :: rest') := by
        intro text text' rest rest' longer size ends ends' same
        rcases quoted.split (ends' _ List.mem_cons_self) longer same with
          ⟨rfl, rfl, rfl⟩ | ⟨next, start, start', others, others', rfl, rfl, rfl, below⟩ |
          ⟨next, start, others, tail, rfl, rfl, below⟩
        · exact alike_nil.cons _
        · have fewer : others.length + others'.length < total := by
            simp only [List.length_cons] at size
            omega
          exact (ih _ fewer next start start' others others' ends.tail ends'.tail below rfl).cons _
        · have fewer : others.length + rest'.length < total := by
            simp only [List.length_cons] at size
            omega
          rw [← List.append_assoc] at ends'
          have left := ih _ fewer next start tail others rest' ends.tail ends'.suffix below rfl
          exact left.cut key text
      have first : text <+: joined gap text rest := prefix_joined text rest
      have first' : text' <+: joined gap text rest := same ▸ prefix_joined text' rest'
      rcases List.prefix_or_prefix_of_prefix first first' with longer | longer
      · exact shorter longer size ends ends' same
      · rw [Nat.add_comm] at size
        exact (shorter longer size ends' ends same.symm).symm

/-- Two lists are written alike exactly when they can be cut alike. -/
theorem Quoted.alike_iff_joined_eq (quoted : Quoted gap quote blank) {key key' : κ}
    {text text' : List α} {rest rest' : List (κ × List α)}
    (ends : Unblank blank ((key, text) :: rest)) (ends' : Unblank blank ((key', text') :: rest')) :
    Alike gap ((key, text) :: rest) ((key', text') :: rest') ↔
      key = key' ∧ joined gap text rest = joined gap text' rest' := by
  constructor
  · exact Alike.joined_eq
  · rintro ⟨rfl, same⟩
    exact quoted.alike_of_joined key text text' rest rest' ends ends' same

end Telling

end FizzbeeMbt.Joins
