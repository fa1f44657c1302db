import Mathlib.Data.List.AList
import Mathlib.Data.List.Induction

/-! Finite maps as association lists with distinct keys, rebuilt entry by entry. -/

namespace FizzbeeMbt.Maps

abbrev Map (κ α : Type*) := AList (fun _ : κ => α)

variable {κ α β : Type*}

def Map.entryList (m : Map κ α) : List (κ × α) := m.entries.map fun entry => (entry.1, entry.2)

def Map.isEmpty (m : Map κ α) : Bool := m.entries.isEmpty

theorem entryList_distinct (m : Map κ α) : (m.entryList.map Prod.fst).Nodup := by
  have keys : m.entryList.map Prod.fst = m.keys := by
    simp [Map.entryList, AList.keys, List.keys]
  rw [keys]
  exact m.keys_nodup

variable [DecidableEq κ]

/-- Assign the entries one after the other, so that the last one of a key wins. -/
def Map.ofEntries (entries : List (κ × α)) : Map κ α :=
  entries.foldl (fun m entry => m.insert entry.1 entry.2) ∅

theorem lookup_cons_if (entry : κ × α) (entries : List (κ × α)) (k : κ) :
    (entry :: entries).lookup k = if k = entry.1 then some entry.2 else entries.lookup k := by
  obtain ⟨key, v⟩ := entry
  by_cases same : k = key
  · subst same
    simp
  · have differ : (k == key) = false := beq_false_of_ne same
    simp [List.lookup_cons, same, differ]

theorem lookup_insert_if (m : Map κ α) (k k' : κ) (v : α) :
    (m.insert k v).lookup k' = if k' = k then some v else m.lookup k' := by
  by_cases same : k' = k
  · subst same
    simp
  · rw [if_neg same, AList.lookup_insert_ne same]

theorem lookup_entryList (m : Map κ α) (k : κ) : m.entryList.lookup k = m.lookup k := by
  obtain ⟨entries, distinct⟩ := m
  simp only [Map.entryList, AList.lookup]
  clear distinct
  induction entries with
  | nil => rfl
  | cons entry entries ih =>
      obtain ⟨key, v⟩ := entry
      rw [List.map_cons, lookup_cons_if, ih]
      by_cases same : k = key
      · subst same
        simp
      · rw [if_neg same, List.dlookup_cons_ne _ _ same]

theorem isEmpty_iff (m : Map κ α) : m.isEmpty = true ↔ ∀ k, m.lookup k = none := by
  constructor
  · intro empty k
    rw [← lookup_entryList]
    simp [Map.entryList, List.isEmpty_iff.mp empty]
  · intro absent
    apply List.isEmpty_iff.mpr
    apply List.eq_nil_iff_forall_not_mem.mpr
    intro entry member
    have found : entry.1 ∈ m := AList.mem_keys.mpr (List.mem_map_of_mem member)
    exact (AList.lookup_eq_none.mp (absent entry.1)) found

theorem not_mem_keys_of_isEmpty (m : Map κ α) (empty : m.isEmpty = true) (k : κ) :
    k ∉ m.keys := by
  intro member
  exact (AList.lookup_eq_none.mp ((isEmpty_iff m).mp empty k)) (AList.mem_keys.mpr member)

omit [DecidableEq κ] in
theorem exists_mem_keys (m : Map κ α) (filled : m.isEmpty = false) : ∃ k, k ∈ m.keys := by
  cases split : m.entries with
  | nil => simp [Map.isEmpty, split] at filled
  | cons entry entries => exact ⟨entry.1, by simp [AList.keys, split]⟩

theorem lookup_ofEntries (entries : List (κ × α)) (k : κ) :
    (Map.ofEntries entries).lookup k = entries.reverse.lookup k := by
  induction entries using List.reverseRecOn with
  | nil => rfl
  | append_singleton entries entry ih =>
      simp only [Map.ofEntries] at ih
      simp only [Map.ofEntries, List.foldl_append, List.foldl_cons, List.foldl_nil,
        List.reverse_append, List.reverse_cons, List.reverse_nil, List.nil_append,
        List.singleton_append, lookup_cons_if, lookup_insert_if, ih]

/-- With distinct keys a lookup finds exactly the listed entries. -/
theorem lookup_eq_some_iff_mem (entries : List (κ × α))
    (distinct : (entries.map Prod.fst).Nodup) (k : κ) (v : α) :
    entries.lookup k = some v ↔ (k, v) ∈ entries := by
  induction entries with
  | nil => simp
  | cons entry entries ih =>
      obtain ⟨key, w⟩ := entry
      rw [List.map_cons, List.nodup_cons] at distinct
      rw [lookup_cons_if, List.mem_cons, ← ih distinct.2]
      by_cases same : k = key
      · subst same
        have outside : entries.lookup k ≠ some v := by
          intro found
          have listed : (k, v).1 ∈ entries.map Prod.fst :=
            List.mem_map_of_mem ((ih distinct.2).mp found)
          exact distinct.1 listed
        simp [outside, eq_comm]
      · simp [same]

theorem lookup_ne_none (entries : List (κ × α)) {entry : κ × α} (member : entry ∈ entries) :
    entries.lookup entry.1 ≠ none := by
  intro missing
  have differ := List.lookup_eq_none_iff.mp missing entry member
  simp at differ

theorem lookup_perm {left right : List (κ × α)} (distinct : (left.map Prod.fst).Nodup)
    (same : left.Perm right) (k : κ) : left.lookup k = right.lookup k := by
  have rightDistinct : (right.map Prod.fst).Nodup := (same.map Prod.fst).nodup_iff.mp distinct
  apply Option.ext
  intro v
  rw [lookup_eq_some_iff_mem left distinct, lookup_eq_some_iff_mem right rightDistinct]
  exact same.mem_iff

theorem lookup_ofEntries_distinct (entries : List (κ × α))
    (distinct : (entries.map Prod.fst).Nodup) (k : κ) :
    (Map.ofEntries entries).lookup k = entries.lookup k := by
  rw [lookup_ofEntries]
  exact (lookup_perm distinct (List.reverse_perm entries).symm k).symm

omit [DecidableEq κ] in
/-- Entries get new names, in descending order of their old ones: a lookup by a new
name finds the entry that had the greatest old one. -/
theorem lookup_renamed {ν : Type*} [DecidableEq ν] (le : κ → κ → Prop) [Std.Refl le]
    [Std.Antisymm le] (rename : κ → ν) (entries : List (κ × α))
    (distinct : (entries.map Prod.fst).Nodup)
    (descending : entries.Pairwise fun a b => le b.1 a.1) (j : ν) (v : α) :
    (entries.map fun entry => (rename entry.1, entry.2)).lookup j = some v ↔
      ∃ k, rename k = j ∧ (k, v) ∈ entries ∧
        ∀ k', rename k' = j → k' ∈ entries.map Prod.fst → le k' k := by
  induction entries with
  | nil => simp
  | cons entry entries ih =>
      obtain ⟨key, w⟩ := entry
      rw [List.map_cons, List.nodup_cons] at distinct
      obtain ⟨top, below⟩ := List.pairwise_cons.mp descending
      have under : ∀ k ∈ entries.map Prod.fst, le k key := by
        intro k member
        obtain ⟨found, listed, rfl⟩ := List.mem_map.mp member
        exact top found listed
      rw [List.map_cons, lookup_cons_if]
      by_cases same : j = rename key
      · rw [if_pos same]
        constructor
        · intro found
          obtain rfl := Option.some.inj found
          refine ⟨key, same.symm, List.mem_cons_self, ?_⟩
          intro k' _ member
          rcases List.mem_cons.mp member with rfl | member
          · exact Std.Refl.refl _
          · exact under k' member
        · rintro ⟨k, named, member, greatest⟩
          rcases List.mem_cons.mp member with equal | member
          · rw [(Prod.mk.inj equal).2]
          · have listed : k ∈ entries.map Prod.fst := List.mem_map_of_mem (f := Prod.fst) member
            have above : le key k := greatest key same.symm List.mem_cons_self
            obtain rfl : k = key := Std.Antisymm.antisymm _ _ (under k listed) above
            exact absurd listed distinct.1
      · rw [if_neg same, ih distinct.2 below]
        constructor
        · rintro ⟨k, named, member, greatest⟩
          refine ⟨k, named, List.mem_cons_of_mem _ member, ?_⟩
          intro k' named' listed
          rcases List.mem_cons.mp listed with rfl | listed
          · exact absurd named'.symm same
          · exact greatest k' named' listed
        · rintro ⟨k, named, member, greatest⟩
          rcases List.mem_cons.mp member with equal | member
          · rw [(Prod.mk.inj equal).1] at named
            exact absurd named.symm same
          · exact ⟨k, named, member,
              fun k' named' listed => greatest k' named' (List.mem_cons_of_mem _ listed)⟩

/-- A loop over the entries of one map that assigns each key its new value in a
fresh map. -/
def Map.rebuild (f : α → β) (m : Map κ α) : Map κ β :=
  Map.ofEntries (m.entryList.map fun entry => (entry.1, f entry.2))

theorem lookup_map_snd (f : α → β) (entries : List (κ × α)) (k : κ) :
    (entries.map fun entry => (entry.1, f entry.2)).lookup k = (entries.lookup k).map f := by
  induction entries with
  | nil => rfl
  | cons entry entries ih =>
      rw [List.map_cons, lookup_cons_if, lookup_cons_if, ih]
      split <;> rfl

theorem lookup_rebuild (f : α → β) (m : Map κ α) (k : κ) :
    (m.rebuild f).lookup k = (m.lookup k).map f := by
  have keys : (m.entryList.map fun entry => (entry.1, f entry.2)).map Prod.fst =
      m.entryList.map Prod.fst := by
    simp
  rw [Map.rebuild, lookup_ofEntries_distinct _ (keys ▸ entryList_distinct m), lookup_map_snd,
    lookup_entryList]

end FizzbeeMbt.Maps
