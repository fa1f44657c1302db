import Mathlib.Data.List.Nodup

/-! Dictionaries that keep their keys in the order of first insertion. -/

namespace FizzbeeMbt.Dicts

structure Dict (κ α : Type*) where
  entries : List (κ × α)
  distinct : (entries.map Prod.fst).Nodup

variable {κ α : Type*}

def Dict.empty : Dict κ α := ⟨[], List.nodup_nil⟩

def Dict.keys (d : Dict κ α) : List κ := d.entries.map Prod.fst

def Dict.values (d : Dict κ α) : List α := d.entries.map Prod.snd

/-- `{k: v for k, v in d.items() if keep(v)}`. -/
def Dict.keepValues (d : Dict κ α) (keep : α → Bool) : Dict κ α where
  entries := d.entries.filter fun entry => keep entry.2
  distinct := d.distinct.sublist (List.filter_sublist.map Prod.fst)

variable [DecidableEq κ]

def Dict.get? (d : Dict κ α) (k : κ) : Option α := d.entries.lookup k

def assign (entries : List (κ × α)) (k : κ) (v : α) : List (κ × α) :=
  match entries with
  | [] => [(k, v)]
  | entry :: rest => if entry.1 = k then (k, v) :: rest else entry :: assign rest k v

theorem mem_assign_keys (entries : List (κ × α)) (k k' : κ) (v : α) :
    k' ∈ (assign entries k v).map Prod.fst ↔ k' = k ∨ k' ∈ entries.map Prod.fst := by
  induction entries with
  | nil => simp [assign]
  | cons entry rest ih =>
      unfold assign
      split
      · next same =>
          subst same
          simp
      · simp only [List.map_cons, List.mem_cons, ih]
        tauto

theorem assign_distinct (entries : List (κ × α)) (distinct : (entries.map Prod.fst).Nodup)
    (k : κ) (v : α) : ((assign entries k v).map Prod.fst).Nodup := by
  induction entries with
  | nil => simp [assign]
  | cons entry rest ih =>
      rw [List.map_cons, List.nodup_cons] at distinct
      unfold assign
      split
      · next same =>
          subst same
          exact List.nodup_cons.mpr distinct
      · next differ =>
          refine List.nodup_cons.mpr ⟨?_, ih distinct.2⟩
          rw [mem_assign_keys]
          rintro (same | member)
          · exact differ same
          · exact distinct.1 member

/-- `d[k] = v`: a key that is present keeps its place. -/
def Dict.set (d : Dict κ α) (k : κ) (v : α) : Dict κ α :=
  ⟨assign d.entries k v, assign_distinct d.entries d.distinct k v⟩

/-- `d.pop(k)`, `none` where the key is missing. -/
def Dict.pop? (d : Dict κ α) (k : κ) : Option (Dict κ α) :=
  if k ∈ d.keys then
    some ⟨d.entries.filter fun entry => entry.1 ≠ k,
      d.distinct.sublist (List.filter_sublist.map Prod.fst)⟩
  else none

section Places

theorem assign_new (entries : List (κ × α)) (k : κ) (v : α)
    (absent : k ∉ entries.map Prod.fst) : assign entries k v = entries ++ [(k, v)] := by
  induction entries with
  | nil => rfl
  | cons entry rest ih =>
      rw [List.map_cons, List.mem_cons, not_or] at absent
      unfold assign
      rw [if_neg (Ne.symm absent.1), ih absent.2]
      rfl

omit [DecidableEq κ] in
/-- Of an entry in the middle, with the keys around it. -/
theorem Dict.apart {d : Dict κ α} {before after : List (κ × α)} {k : κ} {v : α}
    (split : d.entries = before ++ (k, v) :: after) :
    k ∉ before.map Prod.fst ∧ k ∉ after.map Prod.fst := by
  have distinct := d.distinct
  rw [split, List.map_append, List.map_cons, List.nodup_append] at distinct
  obtain ⟨-, tail, separate⟩ := distinct
  refine ⟨?_, (List.nodup_cons.mp tail).1⟩
  intro member
  exact separate k member k List.mem_cons_self rfl

theorem assign_here (before after : List (κ × α)) (k : κ) (v w : α)
    (absent : k ∉ before.map Prod.fst) :
    assign (before ++ (k, v) :: after) k w = before ++ (k, w) :: after := by
  induction before with
  | nil => simp [assign]
  | cons entry rest ih =>
      rw [List.map_cons, List.mem_cons, not_or] at absent
      rw [List.cons_append, assign, if_neg (Ne.symm absent.1), ih absent.2]
      rfl

theorem Dict.get?_split {d : Dict κ α} {before after : List (κ × α)} {k : κ} {v : α}
    (split : d.entries = before ++ (k, v) :: after) : d.get? k = some v := by
  have absent := (d.apart split).1
  unfold Dict.get?
  rw [split, List.lookup_append]
  have missing : before.lookup k = none := by
    apply List.lookup_eq_none_iff.mpr
    intro entry member
    have differ : k ≠ entry.1 := by
      rintro rfl
      exact absent (List.mem_map_of_mem member)
    simp [differ]
  simp [missing]

theorem Dict.set_split {d : Dict κ α} {before after : List (κ × α)} {k : κ} {v : α}
    (split : d.entries = before ++ (k, v) :: after) (w : α) :
    (d.set k w).entries = before ++ (k, w) :: after := by
  simp only [Dict.set, split]
  exact assign_here before after k v w (d.apart split).1

theorem filter_absent (entries : List (κ × α)) (k : κ) (absent : k ∉ entries.map Prod.fst) :
    entries.filter (fun entry => entry.1 ≠ k) = entries := by
  apply List.filter_eq_self.mpr
  intro entry member
  have differ : entry.1 ≠ k := by
    rintro rfl
    exact absent (List.mem_map_of_mem member)
  simp [differ]

theorem Dict.pop?_split {d : Dict κ α} {before after : List (κ × α)} {k : κ} {v : α}
    (split : d.entries = before ++ (k, v) :: after) :
    ∃ d', d.pop? k = some d' ∧ d'.entries = before ++ after := by
  obtain ⟨left, right⟩ := d.apart split
  have present : k ∈ d.keys := by simp [Dict.keys, split]
  refine ⟨_, if_pos present, ?_⟩
  simp only [split, List.filter_append, List.filter_cons, filter_absent before k left,
    filter_absent after k right]
  simp

end Places

end FizzbeeMbt.Dicts
