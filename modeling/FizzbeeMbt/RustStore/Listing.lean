import FizzbeeMbt.RustStore.Session

/-! One caller at a time on an object store that lists in any order. -/

namespace FizzbeeMbt.RustStore

open FizzbeeMbt.Maps FizzbeeMbt.Deltas FizzbeeMbt.Runs

variable {Path : Type} [LinearOrder Path]

/-- Every listed segment whose entry of the key is another than that of the newest
segment with the key is followed, later in the listing, by one with the newest entry. -/
def NewestLast (objects : ObjectStore Path) (listing : List Path) (key : Key) : Prop :=
  ∀ newest entry, segmentTable objects newest key = some entry →
    (∀ path, segmentTable objects path key ≠ none → path ≤ newest) →
      ∀ earlier path later stale, listing = earlier ++ path :: later →
        segmentTable objects path key = some stale → stale ≠ entry →
          ∃ again ∈ later, segmentTable objects again key = some entry

/-- The segment that answers a newest-first scan is the newest one with the key. -/
theorem newest_of_scan (objects : ObjectStore Path) (key : Key) (entry : Value)
    (descending : objects.keys.Pairwise (· > ·))
    (found : scan (objects.keys.map (segmentTable objects)) key = some entry) :
    ∃ newest ∈ objects.keys, segmentTable objects newest key = some entry ∧
      ∀ path, segmentTable objects path key ≠ none → path ≤ newest := by
  rw [scan_map] at found
  obtain ⟨newer, newest, older, keys, hit, absent⟩ := List.findSome?_eq_some_iff.mp found
  refine ⟨newest, by simp [keys], hit, ?_⟩
  intro path held
  have member := mem_of_segmentTable objects path key held
  rw [keys, List.mem_append, List.mem_cons] at member
  rw [keys] at descending
  rcases member with above | rfl | below
  · exact absurd (absent path above) held
  · exact le_refl path
  · have tail := (List.pairwise_append.mp descending).2.1
    exact le_of_lt ((List.pairwise_cons.mp tail).1 path below)

/-- A key that no object holds is found under no listing. -/
theorem scan_listing_none (objects : ObjectStore Path) (listing : List Path) (key : Key)
    (lists : Lists objects listing)
    (nothing : scan (objects.keys.map (segmentTable objects)) key = none) :
    scan (listing.reverse.map (segmentTable objects)) key = none ∧
      NewestLast objects listing key := by
  rw [scan_map] at nothing ⊢
  have absent := List.findSome?_eq_none_iff.mp nothing
  constructor
  · apply List.findSome?_eq_none_iff.mpr
    intro path member
    exact absent path (lists.mem_iff.mp (List.mem_reverse.mp member))
  · intro newest entry held
    have member := mem_of_segmentTable objects newest key (by simp [held])
    rw [absent newest member] at held
    cases held

/-- A listing that brings the newest entry last is one whose reverse scan finds it. -/
theorem newestLast_iff_scan (objects : ObjectStore Path) (listing : List Path) (key : Key)
    (newest : Path) (entry : Value) (listed : newest ∈ listing)
    (hit : segmentTable objects newest key = some entry)
    (above : ∀ path, segmentTable objects path key ≠ none → path ≤ newest) :
    NewestLast objects listing key ↔
      scan (listing.reverse.map (segmentTable objects)) key = some entry := by
  rw [scan_reverse_eq_some_iff (segmentTable objects) listing key entry ⟨newest, listed, hit⟩]
  constructor
  · intro newestLast
    exact newestLast newest entry hit above
  · intro followed newest' entry' hit' above'
    have one : newest' = newest :=
      le_antisymm (above newest' (by simp [hit'])) (above' newest (by simp [hit]))
    subst one
    obtain rfl := Option.some.inj (hit'.symm.trans hit)
    exact followed

/-- On an object store that lists in any order, a Remote get returns what the flushes
persisted exactly when the listing brings the newest entry of its key last. -/
theorem remote_get_any_listing (names : Nat → Path) (increasing : StrictMono names)
    (ops : List Op) (listing : List Path) (lists : Lists (session names ops).objects listing)
    (key : Key) :
    (session names ops).store.get (.ok listing) (fetch (session names ops).objects) key
        .Remote = .ok (latest (persisted ops) key).join ↔
      NewestLast (session names ops).objects listing key := by
  obtain ⟨trace, run, -, landed⟩ := session_run names increasing ops
  have layers := layers_run (lossless_run run)
  have answers : scan ((session names ops).objects.keys.map
      (segmentTable (session names ops).objects)) key = latest (persisted ops) key :=
    landed ▸ layers.segments key
  have descending : (session names ops).objects.keys.Pairwise (· > ·) := layers.descending
  generalize (session names ops).objects = objects at *
  have got : (session names ops).store.get (.ok listing) (fetch objects) key .Remote =
      .ok (scan (listing.reverse.map (segmentTable objects)) key).join :=
    scan_segments_eq_scan objects key listing.reverse
  rw [got, ← answers]
  cases found : scan (objects.keys.map (segmentTable objects)) key with
  | none =>
      obtain ⟨nothing, newestLast⟩ := scan_listing_none objects listing key lists found
      rw [nothing]
      exact ⟨fun _ => newestLast, fun _ => rfl⟩
  | some entry =>
      obtain ⟨newest, member, hit, above⟩ := newest_of_scan objects key entry descending found
      have listed : newest ∈ listing := lists.mem_iff.mpr member
      rw [newestLast_iff_scan objects listing key newest entry listed hit above]
      cases scanned : scan (listing.reverse.map (segmentTable objects)) key with
      | none =>
          rw [scan_map] at scanned
          have absent := List.findSome?_eq_none_iff.mp scanned newest (List.mem_reverse.mpr listed)
          rw [absent] at hit
          cases hit
      | some last => simp

/-- An ascending listing brings the newest segment last. -/
theorem newestLast_of_ascending (objects : ObjectStore Path) (listing : List Path) (key : Key)
    (lists : ListsAscending objects listing) : NewestLast objects listing key := by
  intro newest entry hit above earlier path later stale split holds differ
  have member : newest ∈ listing :=
    lists.1.mem_iff.mpr (mem_of_segmentTable objects newest key (by simp [hit]))
  have order := lists.2
  rw [split] at member order
  rw [List.mem_append, List.mem_cons] at member
  rcases member with early | rfl | late
  · have upward := (List.pairwise_append.mp order).2.2 newest early path List.mem_cons_self
    exact absurd (above path (by simp [holds])) (not_le_of_gt upward)
  · exact absurd (Option.some.inj (holds.symm.trans hit)) differ
  · exact ⟨newest, late, hit⟩

/-- A key flushed twice with different values, newest call first. -/
def twoVersions : List Op := [.flush, .put "k" [2], .flush, .put "k" [1]]

theorem remote_get_any_listing_ascending :
    (session (id : Nat → Nat) twoVersions).store.get (.ok [0, 1])
        (fetch (session id twoVersions).objects) "k" .Remote =
      .ok (latest (persisted twoVersions) "k").join := by
  have lists : ListsAscending (session (id : Nat → Nat) twoVersions).objects [0, 1] :=
    ⟨List.Perm.swap 1 0 [], by simp⟩
  exact (remote_get_any_listing id strictMono_id twoVersions [0, 1] lists.1 "k").mpr
    (newestLast_of_ascending _ _ _ lists)

/-- An object store that lists the newer of two segments first makes the older value
come back. -/
theorem descending_listing_reads_stale :
    StrictMono (id : Nat → Nat) ∧
      Lists (session (id : Nat → Nat) twoVersions).objects [1, 0] ∧
        (session (id : Nat → Nat) twoVersions).store.get (.ok [1, 0])
            (fetch (session id twoVersions).objects) "k" .Remote = .ok (some [1]) ∧
          latest (persisted twoVersions) "k" = some (some [2]) := by
  exact ⟨strictMono_id, List.Perm.refl _, by decide, by decide⟩

end FizzbeeMbt.RustStore
