import Mathlib.Data.List.DropRight

/-! Trimming lists at both ends, taking a prefix off what is left, and where two notions
of blank make a difference to it. -/

namespace FizzbeeMbt.Trim

variable {α : Type*}

def trim (blank : α → Bool) (s : List α) : List α := (s.dropWhile blank).rdropWhile blank

/-- Neither end of the list is blank. -/
structure Trimmed (blank : α → Bool) (s : List α) : Prop where
  head : ∀ c ∈ s.head?, blank c = false
  last : ∀ c ∈ s.getLast?, blank c = false

section Trim

variable {blank : α → Bool} {s : List α}

instance : Decidable (Trimmed blank s) :=
  decidable_of_iff ((∀ c ∈ s.head?, blank c = false) ∧ ∀ c ∈ s.getLast?, blank c = false)
    ⟨fun ⟨head, last⟩ => ⟨head, last⟩, fun ⟨head, last⟩ => ⟨head, last⟩⟩

theorem trim_eq_of_framed {front kept back : List α} (framed : s = front ++ (kept ++ back))
    (before : ∀ c ∈ front, blank c = true) (after : ∀ c ∈ back, blank c = true)
    (trimmed : Trimmed blank kept) : trim blank s = kept := by
  subst framed
  unfold trim
  rw [List.dropWhile_append_of_pos before]
  cases kept with
  | nil =>
      rw [List.nil_append, List.dropWhile_eq_nil_iff.mpr after]
      exact List.rdropWhile_nil blank
  | cons c rest =>
      have first : ¬blank c = true := by simpa using trimmed.head c rfl
      rw [List.cons_append, List.dropWhile_cons_of_neg first, ← List.cons_append,
        List.rdropWhile, List.reverse_append,
        List.dropWhile_append_of_pos (fun c member => after c (List.mem_reverse.mp member)),
        ← List.rdropWhile, List.rdropWhile_eq_self_iff]
      intro filled
      simpa using trimmed.last _ (List.getLast?_eq_some_getLast filled)

/-- Trimming takes blanks off both ends. -/
theorem trim_framed (blank : α → Bool) (s : List α) :
    ∃ front back, s = front ++ (trim blank s ++ back) ∧ (∀ c ∈ front, blank c = true) ∧
      ∀ c ∈ back, blank c = true := by
  refine ⟨s.takeWhile blank, (s.dropWhile blank).rtakeWhile blank, ?_, ?_, ?_⟩
  · rw [trim, List.rdropWhile_append_rtakeWhile, List.takeWhile_append_dropWhile]
  · intro c member
    exact List.mem_takeWhile_imp member
  · intro c member
    exact List.mem_rtakeWhile_imp member

theorem trim_trimmed (blank : α → Bool) (s : List α) : Trimmed blank (trim blank s) := by
  constructor
  · intro c first
    have order : trim blank s <+: s.dropWhile blank := List.rdropWhile_prefix blank _
    have start : (s.dropWhile blank).head? = some c := by
      cases kept : trim blank s with
      | nil => simp [kept] at first
      | cons d rest =>
          obtain ⟨tail, same⟩ := order
          rw [kept] at first same
          rw [← same]
          exact first
    have stopped := List.head?_dropWhile_not blank s
    rw [start] at stopped
    simpa using stopped
  · intro c last
    have filled : trim blank s ≠ [] := by
      intro empty
      simp [empty] at last
    have kept := List.rdropWhile_last_not blank (s.dropWhile blank) filled
    rw [List.getLast?_eq_some_getLast filled] at last
    obtain rfl := Option.some.inj last
    exact eq_false_of_ne_true kept

theorem trim_eq_self_iff : trim blank s = s ↔ Trimmed blank s := by
  constructor
  · intro same
    exact same ▸ trim_trimmed blank s
  · intro trimmed
    have framed : s = [] ++ (s ++ []) := by simp
    exact trim_eq_of_framed framed (by simp) (by simp) trimmed

theorem count_trim [DecidableEq α] (blank : α → Bool) (s : List α) (c : α)
    (visible : blank c = false) : (trim blank s).count c = s.count c := by
  obtain ⟨front, back, framed, before, after⟩ := trim_framed blank s
  have outside : ∀ part : List α, (∀ d ∈ part, blank d = true) → part.count c = 0 := by
    intro part blanks
    apply List.count_eq_zero_of_not_mem
    intro member
    rw [blanks c member] at visible
    cases visible
  conv_rhs => rw [framed]
  simp [outside front before, outside back after]

theorem trim_reverse (blank : α → Bool) (s : List α) :
    trim blank s.reverse = (trim blank s).reverse := by
  obtain ⟨front, back, framed, before, after⟩ := trim_framed blank s
  have trimmed := trim_trimmed blank s
  have reversed : s.reverse = back.reverse ++ ((trim blank s).reverse ++ front.reverse) := by
    conv_lhs => rw [framed]
    simp
  apply trim_eq_of_framed reversed
  · intro c member
    exact after c (List.mem_reverse.mp member)
  · intro c member
    exact before c (List.mem_reverse.mp member)
  · exact ⟨by simpa using trimmed.last, by simpa using trimmed.head⟩

theorem head?_trim {front rest : List α} {c : α} (framed : s = front ++ c :: rest)
    (before : ∀ d ∈ front, blank d = true) (visible : blank c = false) :
    (trim blank s).head? = some c := by
  subst framed
  have filled : (c :: rest).rdropWhile blank ≠ [] := by
    intro empty
    have blanks := List.rdropWhile_eq_nil_iff.mp empty c List.mem_cons_self
    exact absurd (visible.symm.trans blanks) (by simp)
  obtain ⟨back, same⟩ := List.rdropWhile_prefix blank (c :: rest)
  unfold trim
  rw [List.dropWhile_append_of_pos before, List.dropWhile_cons_of_neg (by simp [visible])]
  cases kept : (c :: rest).rdropWhile blank with
  | nil => exact absurd kept filled
  | cons d tail =>
      rw [kept, List.cons_append] at same
      rw [(List.cons.inj same).1]
      rfl

theorem getLast?_trim {rest back : List α} {c : α} (framed : s = rest ++ c :: back)
    (after : ∀ d ∈ back, blank d = true) (visible : blank c = false) :
    (trim blank s).getLast? = some c := by
  have reversed : s.reverse = back.reverse ++ c :: rest.reverse := by simp [framed]
  have first := head?_trim reversed (fun d member => after d (List.mem_reverse.mp member)) visible
  rwa [trim_reverse, List.head?_reverse] at first

end Trim

section Agreement

variable (p q : α → Bool) (s : List α)

def both (c : α) : Bool := p c && q c

/-- Two notions of blank see the ends of the list alike. -/
structure SameEnds (s : List α) : Prop where
  head : ∀ c ∈ s.head?, p c = q c
  last : ∀ c ∈ s.getLast?, p c = q c

instance : Decidable (SameEnds p q s) :=
  decidable_of_iff ((∀ c ∈ s.head?, p c = q c) ∧ ∀ c ∈ s.getLast?, p c = q c)
    ⟨fun ⟨head, last⟩ => ⟨head, last⟩, fun ⟨head, last⟩ => ⟨head, last⟩⟩

theorem both_comm : both p q = both q p := by
  funext c
  exact Bool.and_comm (p c) (q c)

variable {p q s}

theorem SameEnds.comm (same : SameEnds p q s) : SameEnds q p s :=
  ⟨fun c first => (same.head c first).symm, fun c last => (same.last c last).symm⟩

theorem both_left {part : List α} (blanks : ∀ c ∈ part, both p q c = true) :
    ∀ c ∈ part, p c = true :=
  fun c member => (Bool.and_eq_true_iff.mp (blanks c member)).1

theorem both_right {part : List α} (blanks : ∀ c ∈ part, both p q c = true) :
    ∀ c ∈ part, q c = true :=
  fun c member => (Bool.and_eq_true_iff.mp (blanks c member)).2

/-- An end that both see alike and that is not blank to both is blank to neither. -/
theorem visible_of_same {c : α} (visible : both p q c = false) (same : p c = q c) :
    p c = false := by
  cases seen : p c with
  | false => rfl
  | true =>
      rw [both, ← same, seen] at visible
      cases visible

/-- Where both see the ends alike, trimming what is blank to both trims for each. -/
theorem trim_of_sameEnds (same : SameEnds p q (trim (both p q) s)) :
    trim p s = trim (both p q) s := by
  obtain ⟨front, back, framed, before, after⟩ := trim_framed (both p q) s
  have trimmed := trim_trimmed (both p q) s
  refine trim_eq_of_framed framed (both_left before) (both_left after) ?_
  constructor
  · intro c first
    exact visible_of_same (trimmed.head c first) (same.head c first)
  · intro c last
    exact visible_of_same (trimmed.last c last) (same.last c last)

/-- A first element that only `p` takes for a blank stays under `q`. -/
theorem head?_of_onesided {c : α} (first : (trim (both p q) s).head? = some c)
    (visible : q c = false) : (trim q s).head? = some c := by
  obtain ⟨front, back, framed, before, -⟩ := trim_framed (both p q) s
  obtain ⟨rest, kept⟩ := List.head?_eq_some_iff.mp first
  rw [kept, List.cons_append] at framed
  exact head?_trim framed (both_right before) visible

theorem getLast?_of_onesided {c : α} (last : (trim (both p q) s).getLast? = some c)
    (visible : q c = false) : (trim q s).getLast? = some c := by
  obtain ⟨front, back, framed, -, after⟩ := trim_framed (both p q) s
  obtain ⟨rest, kept⟩ := List.getLast?_eq_some_iff.mp last
  have framed' : s = (front ++ rest) ++ c :: back := by
    conv_lhs => rw [framed, kept]
    simp
  exact getLast?_trim framed' (both_right after) visible

/-- The ends that `kept` has from a list are blank to neither if it is trimmed for both. -/
theorem sameEnds_of_kept {kept : List α} (first : Trimmed p kept) (second : Trimmed q kept)
    (left : ∀ c, p c = true → q c = false →
      (s.head? = some c → kept.head? = some c) ∧ (s.getLast? = some c → kept.getLast? = some c))
    (right : ∀ c, q c = true → p c = false →
      (s.head? = some c → kept.head? = some c) ∧ (s.getLast? = some c → kept.getLast? = some c)) :
    SameEnds p q s := by
  constructor
  · intro c start
    cases blank : p c <;> cases blank' : q c
    · rfl
    · exact (blank'.symm.trans (second.head c ((right c blank' blank).1 start))).symm
    · exact blank.symm.trans (first.head c ((left c blank blank').1 start))
    · rfl
  · intro c stop
    cases blank : p c <;> cases blank' : q c
    · rfl
    · exact (blank'.symm.trans (second.last c ((right c blank' blank).2 stop))).symm
    · exact blank.symm.trans (first.last c ((left c blank blank').2 stop))
    · rfl

/-- Two trims agree exactly when they see the ends alike of what both leave. -/
theorem trim_eq_trim_iff : trim p s = trim q s ↔ SameEnds p q (trim (both p q) s) := by
  constructor
  · intro agree
    refine sameEnds_of_kept (trim_trimmed p s) (agree ▸ trim_trimmed q s) ?_ ?_
    · intro c _ visible
      rw [agree]
      exact ⟨fun start => head?_of_onesided start visible,
        fun stop => getLast?_of_onesided stop visible⟩
    · intro c _ visible
      rw [both_comm]
      exact ⟨fun start => head?_of_onesided start visible,
        fun stop => getLast?_of_onesided stop visible⟩
  · intro same
    have other := trim_of_sameEnds (p := q) (q := p) (s := s) (both_comm q p ▸ same.comm)
    rw [trim_of_sameEnds same, other, both_comm]

end Agreement

section Prefixes

variable [DecidableEq α]

/-- The list trimmed, and where the prefix stands first, without it and trimmed again. -/
def stripped (blank : α → Bool) (pre s : List α) : List α :=
  if pre <+: trim blank s then trim blank ((trim blank s).drop pre.length) else trim blank s

variable {p q : α → Bool} {pre s : List α}

theorem stripped_trimmed (blank : α → Bool) (pre s : List α) :
    Trimmed blank (stripped blank pre s) := by
  unfold stripped
  split
  · exact trim_trimmed blank _
  · exact trim_trimmed blank s

theorem count_stripped (blank : α → Bool) (pre s : List α) (c : α) (visible : blank c = false)
    (outside : c ∉ pre) : (stripped blank pre s).count c = s.count c := by
  unfold stripped
  split
  · next first =>
      obtain ⟨rest, same⟩ := first
      rw [count_trim blank _ c visible, ← count_trim blank s c visible, ← same]
      simp [List.count_eq_zero_of_not_mem outside]
  · exact count_trim blank s c visible

/-- A prefix that starts with something visible and ends in a blank. -/
structure Marker (blank : α → Bool) (pre : List α) : Prop where
  visible : ∃ c, pre.head? = some c ∧ blank c = false
  blank : ∃ c, pre.getLast? = some c ∧ blank c = true

theorem stripped_head? (marker : Marker p pre) {c : α} (blank : p c = true) (visible : q c = false)
    (first : (trim (both p q) s).head? = some c) : (stripped q pre s).head? = some c := by
  have kept := head?_of_onesided first visible
  have absent : ¬pre <+: trim q s := by
    rintro ⟨rest, same⟩
    obtain ⟨d, start, shown⟩ := marker.visible
    have both : (trim q s).head? = some d := by
      rw [← same, List.head?_append, start]
      rfl
    obtain rfl := Option.some.inj (kept.symm.trans both)
    rw [blank] at shown
    cases shown
  rwa [stripped, if_neg absent]

theorem stripped_getLast? (marker : Marker q pre) {c : α} (visible : q c = false)
    (last : (trim (both p q) s).getLast? = some c) : (stripped q pre s).getLast? = some c := by
  have kept := getLast?_of_onesided last visible
  unfold stripped
  split
  · next first =>
      obtain ⟨rest, same⟩ := first
      rw [← same, List.drop_left]
      rw [← same] at kept
      cases stop : rest.getLast? with
      | none =>
          obtain ⟨d, last, blank⟩ := marker.blank
          rw [List.getLast?_eq_none_iff.mp stop, List.append_nil, last] at kept
          obtain rfl := Option.some.inj kept
          rw [blank] at visible
          cases visible
      | some d =>
          obtain rfl : d = c := by simpa [List.getLast?_append, stop] using kept
          obtain ⟨before, framed⟩ := List.getLast?_eq_some_iff.mp stop
          exact getLast?_trim framed (by simp) visible
  · exact kept

omit [DecidableEq α] in
/-- What follows a prefix ends like the whole. -/
theorem sameLast_of_append {t : List α} (same : SameEnds p q t) (trimmed : Trimmed (both p q) t)
    (first : pre <+: t) :
    ∀ c ∈ (trim (both p q) (t.drop pre.length)).getLast?, p c = q c := by
  obtain ⟨rest, rfl⟩ := first
  rw [List.drop_left]
  intro c last
  cases stop : rest.getLast? with
  | none =>
      rw [List.getLast?_eq_none_iff.mp stop] at last
      cases last
  | some d =>
      have whole : (pre ++ rest).getLast? = some d := by simp [List.getLast?_append, stop]
      obtain ⟨before, framed⟩ := List.getLast?_eq_some_iff.mp stop
      have kept := getLast?_trim framed (by simp) (trimmed.last d whole)
      obtain rfl : d = c := Option.some.inj (kept.symm.trans last)
      exact same.last d whole

/-- Two notions of blank that agree on a marker strip alike exactly when they see the
ends alike of what both trim off, and after the marker its first element. -/
theorem stripped_eq_stripped_iff (marker : Marker p pre) (marker' : Marker q pre) :
    stripped p pre s = stripped q pre s ↔
      SameEnds p q (trim (both p q) s) ∧ (pre <+: trim (both p q) s →
        ∀ c ∈ (trim (both p q) ((trim (both p q) s).drop pre.length)).head?, p c = q c) := by
  have ends : stripped p pre s = stripped q pre s → SameEnds p q (trim (both p q) s) := by
    intro agree
    refine sameEnds_of_kept (stripped_trimmed p pre s) (agree ▸ stripped_trimmed q pre s) ?_ ?_
    · intro c blank visible
      rw [agree]
      exact ⟨stripped_head? marker blank visible, stripped_getLast? marker' visible⟩
    · intro c blank visible
      rw [both_comm]
      exact ⟨stripped_head? marker' blank visible, stripped_getLast? marker visible⟩
  have rest : SameEnds p q (trim (both p q) s) → (stripped p pre s = stripped q pre s ↔
      (pre <+: trim (both p q) s →
        ∀ c ∈ (trim (both p q) ((trim (both p q) s).drop pre.length)).head?, p c = q c)) := by
    intro same
    have agree := trim_eq_trim_iff.mpr same
    have kept := trim_of_sameEnds same
    unfold stripped
    rw [← agree, kept]
    split
    · next first =>
        rw [trim_eq_trim_iff]
        constructor
        · intro inner _
          exact inner.head
        · intro start
          exact ⟨start first, sameLast_of_append same (trim_trimmed _ s) first⟩
    · next absent =>
        exact ⟨fun _ first => absurd first absent, fun _ => rfl⟩
  constructor
  · intro agree
    exact ⟨ends agree, (rest (ends agree)).mp agree⟩
  · rintro ⟨same, inner⟩
    exact (rest same).mpr inner

/-- A marker put before a list comes off again, as long as the list is not all blank:
then the blank end of the marker is trimmed off and the marker is not recognised. -/
theorem stripped_marked {blank : α → Bool} {stem : List α} {space : α} (filled : stem ≠ [])
    (trimmed : Trimmed blank stem) (blanks : blank space = true) (s : List α) :
    stripped blank (stem ++ [space]) (stem ++ [space] ++ s) =
      if trim blank s = [] then stem else trim blank s := by
  obtain ⟨front, back, framed, before, after⟩ := trim_framed blank s
  cases kept : trim blank s with
  | nil =>
      rw [kept, List.nil_append] at framed
      have whole : trim blank (stem ++ [space] ++ s) = stem := by
        have marked : stem ++ [space] ++ s = [] ++ (stem ++ (space :: s)) := by simp
        apply trim_eq_of_framed marked (by simp) _ trimmed
        intro c member
        rcases List.mem_cons.mp member with rfl | member
        · exact blanks
        · rw [framed, List.mem_append] at member
          exact member.elim (before c) (after c)
      have longer : ¬stem ++ [space] <+: stem := by
        intro short
        have lengths := short.length_le
        rw [List.length_append] at lengths
        exact absurd lengths (Nat.not_succ_le_self _)
      rw [stripped, whole, if_neg longer, if_pos rfl]
  | cons c rest =>
      have inner := trim_trimmed blank s
      have ends : Trimmed blank (stem ++ [space] ++ (front ++ c :: rest)) := by
        constructor
        · intro d first
          obtain ⟨e, start⟩ := Option.ne_none_iff_exists'.mp (mt List.head?_eq_none_iff.mp filled)
          apply trimmed.head d
          simpa [List.head?_append, start] using first
        · intro d last
          rw [← List.append_assoc,
            List.getLast?_append_of_ne_nil _ (List.cons_ne_nil c rest)] at last
          exact inner.last d (kept ▸ last)
      have marked : stem ++ [space] ++ s =
          [] ++ ((stem ++ [space] ++ (front ++ c :: rest)) ++ back) := by
        conv_lhs => rw [framed, kept]
        simp
      have whole := trim_eq_of_framed marked (by simp) after ends
      have split : front ++ c :: rest = front ++ (c :: rest ++ []) := by simp
      have unmarked := trim_eq_of_framed split before (by simp) (kept ▸ inner)
      rw [stripped, whole, if_pos (List.prefix_append _ _), List.drop_left, unmarked,
        if_neg (List.cons_ne_nil c rest)]

end Prefixes

end FizzbeeMbt.Trim
