import FizzbeeMbt.Lib.Maps

/-! Histories of writes and the layered tables that answer reads over them.

A history lists the writes of a store, newest first; a write of `none` is a
deletion. A table is a delta from an older history to a newer one when overlaying
it on the answers of the older gives the answers of the newer. -/

namespace FizzbeeMbt.Deltas

open FizzbeeMbt.Maps

variable {κ α π : Type*}

abbrev History (κ α : Type*) := List (κ × Option α)

/-- A partial map of keys to written values, `some none` being a tombstone. -/
abbrev Table (κ α : Type*) := κ → Option (Option α)

/-- The answer of the newest table that has an entry for the key. -/
def scan : List (Table κ α) → Table κ α
  | [], _ => none
  | table :: older, k => (table k).or (scan older k)

theorem scan_map (table : π → Table κ α) (paths : List π) (k : κ) :
    scan (paths.map table) k = paths.findSome? fun path => table path k := by
  induction paths with
  | nil => rfl
  | cons path rest ih =>
      rw [List.map_cons, scan, ih, List.findSome?_cons]
      cases table path k <;> rfl

/-- Scanning a listing backwards finds `v` exactly when every listed table with
another entry is followed by one with `v`. -/
theorem scan_reverse_eq_some_iff (table : π → Table κ α) (listing : List π) (k : κ)
    (v : Option α) (held : ∃ path ∈ listing, table path k = some v) :
    scan (listing.reverse.map table) k = some v ↔
      ∀ earlier path later w, listing = earlier ++ path :: later → table path k = some w →
        w ≠ v → ∃ again ∈ later, table again k = some v := by
  rw [scan_map]
  constructor
  · intro found earlier path later w split holds differ
    obtain ⟨after, last, upto, reversed, hit, absent⟩ := List.findSome?_eq_some_iff.mp found
    have listed : upto.reverse ++ last :: after.reverse = earlier ++ path :: later := by
      rw [← split, ← List.reverse_reverse listing, reversed]
      simp
    rcases List.append_eq_append_iff.mp listed with ⟨between, -, tail⟩ | ⟨between, -, tail⟩
    · cases between with
      | nil =>
          obtain ⟨rfl, -⟩ := List.cons.inj tail
          exact absurd (Option.some.inj (holds.symm.trans hit)) differ
      | cons head between =>
          have member : path ∈ after.reverse := by
            rw [(List.cons.inj tail).2]
            simp
          rw [absent path (List.mem_reverse.mp member)] at holds
          cases holds
    · cases between with
      | nil =>
          obtain ⟨rfl, -⟩ := List.cons.inj tail
          exact absurd (Option.some.inj (holds.symm.trans hit)) differ
      | cons head between =>
          refine ⟨last, ?_, hit⟩
          rw [(List.cons.inj tail).2]
          simp
  · intro followed
    cases found : listing.reverse.findSome? fun path => table path k with
    | none =>
        obtain ⟨path, member, hit⟩ := held
        have absent := List.findSome?_eq_none_iff.mp found path (List.mem_reverse.mpr member)
        rw [absent] at hit
        cases hit
    | some w =>
        obtain ⟨after, last, upto, reversed, hit, absent⟩ := List.findSome?_eq_some_iff.mp found
        have split : listing = upto.reverse ++ last :: after.reverse := by
          rw [← List.reverse_reverse listing, reversed]
          simp
        by_contra other
        have differ : w ≠ v := fun same => other (congrArg some same)
        obtain ⟨again, member, holds⟩ := followed _ last _ w split hit differ
        rw [absent again (List.mem_reverse.mp member)] at holds
        cases holds

variable [DecidableEq κ]

/-- The last write of a key, `none` when there was none. -/
def latest (h : History κ α) (k : κ) : Option (Option α) := h.lookup k

@[simp] theorem latest_nil (k : κ) : latest ([] : History κ α) k = none := rfl

theorem latest_cons (write : κ × Option α) (h : History κ α) (k : κ) :
    latest (write :: h) k = if k = write.1 then some write.2 else latest h k :=
  lookup_cons_if write h k

theorem mem_of_latest (h : History κ α) (k : κ) (v : Option α) (found : latest h k = some v) :
    (k, v) ∈ h := by
  obtain ⟨newer, older, split, -⟩ := List.lookup_eq_some_iff.mp found
  simp [split]

/-- A history written under other names and in other values reads the same. -/
theorem latest_map {κ' β : Type*} [DecidableEq κ'] (name : κ → κ')
    (apart : Function.Injective name) (f : α → β) (h : History κ α) (k : κ) :
    latest (h.map fun write => (name write.1, write.2.map f)) (name k) =
      (latest h k).map (Option.map f) := by
  induction h with
  | nil => rfl
  | cons write h ih =>
      rw [List.map_cons, latest_cons, latest_cons, ih]
      by_cases same : k = write.1
      · rw [if_pos (congrArg name same), if_pos same]
        rfl
      · rw [if_neg (fun equal => same (apart equal)), if_neg same]

omit [DecidableEq κ] in
/-- What is dropped from the middle of a history joins what was lost before. -/
theorem dropped_perm (newer between dropped older lost : History κ α) :
    (newer ++ (between ++ older) ++ (dropped ++ lost)).Perm
      (newer ++ (between ++ (dropped ++ older)) ++ lost) := by
  simp only [List.append_assoc]
  apply List.Perm.append_left
  apply List.Perm.append_left
  exact List.perm_append_comm_assoc older dropped lost

def Delta (table : Table κ α) (older newer : History κ α) : Prop :=
  ∀ k, latest newer k = (table k).or (latest older k)

theorem delta_refl (table : Table κ α) (h : History κ α) (empty : ∀ k, table k = none) :
    Delta table h h := by
  intro k
  simp [empty k]

theorem Delta.congr {table other : Table κ α} {older newer : History κ α}
    (delta : Delta table older newer) (same : ∀ k, other k = table k) :
    Delta other older newer := by
  intro k
  rw [same k]
  exact delta k

theorem Delta.write {table : Table κ α} {older newer : History κ α}
    (delta : Delta table older newer) (k : κ) (v : Option α) :
    Delta (fun k' => if k' = k then some v else table k') older ((k, v) :: newer) := by
  intro k'
  rw [latest_cons, delta k']
  by_cases same : k' = k <;> simp [same]

theorem Delta.hit {table : Table κ α} {older newer : History κ α}
    (delta : Delta table older newer) {k : κ} {v : Option α} (found : table k = some v) :
    latest newer k = some v := by
  simp [delta k, found]

theorem Delta.miss {table : Table κ α} {older newer : History κ α}
    (delta : Delta table older newer) {k : κ} (absent : table k = none) :
    latest newer k = latest older k := by
  simp [delta k, absent]

/-- The entries of a table are last writes of a history that may have others. -/
def Recalls (table : Table κ α) (h : History κ α) : Prop :=
  ∀ k v, table k = some v → latest h k = some v

theorem recalls_nothing (table : Table κ α) (h : History κ α) (empty : ∀ k, table k = none) :
    Recalls table h := by
  intro k v found
  rw [empty k] at found
  cases found

theorem Recalls.write {table : Table κ α} {h : History κ α} (recalls : Recalls table h)
    (k : κ) (v : Option α) :
    Recalls (fun k' => if k' = k then some v else table k') ((k, v) :: h) := by
  intro k' v' found
  by_cases same : k' = k
  · simpa [latest_cons, same] using found
  · rw [latest_cons, if_neg same]
    exact recalls k' v' (by simpa [same] using found)

/-- A table overlaid once more on its own result changes nothing. -/
theorem Delta.settled {table : Table κ α} {older newer : History κ α}
    (delta : Delta table older newer) : Delta table newer newer := by
  intro k
  cases found : table k with
  | none => rfl
  | some v => exact delta.hit found

/-- A lower table all of whose keys were written again may be dropped. -/
theorem Delta.absorb {below above : Table κ α} {h₁ h₂ h₃ : History κ α}
    (first : Delta below h₁ h₂) (second : Delta above h₂ h₃)
    (rewritten : ∀ k, above k = none → below k = none) : Delta above h₁ h₃ := by
  intro k
  cases found : above k with
  | none => rw [second.miss found, first.miss (rewritten k found)]; rfl
  | some v => rw [second.hit found]; rfl

/-- The writes of `newer` after those of `older`, its past. -/
def recent (older newer : History κ α) : History κ α :=
  newer.take (newer.length - older.length)

omit [DecidableEq κ] in
theorem recent_append (since older : History κ α) : recent older (since ++ older) = since := by
  simp [recent]

omit [DecidableEq κ] in
theorem eq_of_recent_nil {older newer : History κ α} (past : older <:+ newer)
    (nothing : recent older newer = []) : newer = older := by
  obtain ⟨since, rfl⟩ := past
  rw [recent_append] at nothing
  rw [nothing, List.nil_append]

theorem latest_append_miss (since older : History κ α) (k : κ)
    (unwritten : ∀ write ∈ since, write.1 ≠ k) : latest (since ++ older) k = latest older k := by
  induction since with
  | nil => rfl
  | cons write since ih =>
      rw [List.cons_append, latest_cons, if_neg (unwritten write List.mem_cons_self).symm]
      exact ih fun write member => unwritten write (List.mem_cons_of_mem _ member)

/-- A key that was not written recently reads as before. -/
theorem latest_not_recent {older newer : History κ α} (past : older <:+ newer) (k : κ)
    (unwritten : ∀ write ∈ recent older newer, write.1 ≠ k) :
    latest newer k = latest older k := by
  obtain ⟨since, rfl⟩ := past
  rw [recent_append] at unwritten
  exact latest_append_miss since older k unwritten

/-- A stack of tables, newest first, answers like the history. -/
def Answers (tables : List (Table κ α)) (h : History κ α) : Prop :=
  ∀ k, scan tables k = latest h k

/-- The map that a history writes, oldest write first. -/
def contentOf (h : History κ α) : Map κ (Option α) := Map.ofEntries h.reverse

theorem contentOf_cons (write : κ × Option α) (h : History κ α) :
    contentOf (write :: h) = (contentOf h).insert write.1 write.2 := by
  simp [contentOf, Map.ofEntries]

theorem lookup_contentOf (h : History κ α) (k : κ) : (contentOf h).lookup k = latest h k := by
  rw [contentOf, lookup_ofEntries, List.reverse_reverse]
  rfl

theorem contentOf_isEmpty (h : History κ α) : (contentOf h).isEmpty = true ↔ h = [] := by
  constructor
  · intro empty
    cases h with
    | nil => rfl
    | cons write h =>
        have found := (isEmpty_iff _).mp empty write.1
        rw [lookup_contentOf, latest_cons, if_pos rfl] at found
        cases found
  · rintro rfl
    rfl

theorem latest_append (newer older : History κ α) (k : κ) :
    latest (newer ++ older) k = (latest newer k).or (latest older k) := List.lookup_append

theorem answers_nil : Answers ([] : List (Table κ α)) [] := by
  intro k
  rfl

theorem Answers.push {tables : List (Table κ α)} {older newer : History κ α}
    {table : Table κ α} (answers : Answers tables older) (delta : Delta table older newer) :
    Answers (table :: tables) newer := by
  intro k
  rw [delta k, ← answers k]
  rfl

end FizzbeeMbt.Deltas
