import DescriptorCheck.Files.Tree
import Mathlib.Logic.Basic
import Mathlib.Tactic.SplitIfs

set_option autoImplicit false

namespace DescriptorCheck.FileTree

/-- The path leads to where a file can be put. -/
def Takes (t : FileTree) (path : String) (names : List String) : Prop :=
  t.place path = .ok (.inside names) ∧ t.entry? (.inside names) ≠ some .directory

theorem write_eq_ok_iff (t : FileTree) (path : String) (content : List UInt8)
    (written : FileTree) : t.write path content = .ok written ↔
      ∃ names, t.Takes path names ∧ t.put names (.file content) = written := by
  unfold write Takes
  cases t.place path with
  | error fault => exact iff_of_false nofun fun ⟨_, ⟨leads, _⟩, _⟩ => nomatch leads
  | ok place =>
    cases place with
    | outside => exact iff_of_false nofun fun ⟨_, ⟨leads, _⟩, _⟩ => nomatch leads
    | inside names =>
      simp only [bind, Except.bind]
      split
      · simp_all
      · rename_i same free
        cases same
        constructor
        · intro done
          cases done
          exact ⟨names, ⟨rfl, free⟩, rfl⟩
        · rintro ⟨others, ⟨leads, -⟩, rfl⟩
          cases leads
          rfl
      · cases ‹Place.inside names = .outside›

theorem lookup_filter_of_ne {α β : Type} [BEq α] [LawfulBEq α] {k l : α} (ne : k ≠ l)
    (entries : List (α × β)) : (entries.filter (·.1 != l)).lookup k = entries.lookup k := by
  induction entries with
  | nil => rfl
  | cons entry rest ih =>
    obtain ⟨m, v⟩ := entry
    by_cases same : m = l
    · subst same
      have differs : (k == m) = false := by simpa using ne
      rw [List.filter_cons_of_neg (by simp), List.lookup_cons, differs, ih]
    · rw [List.filter_cons_of_pos (by simpa using same), List.lookup_cons, List.lookup_cons, ih]

theorem entry?_inside {names : List String} (nonempty : names ≠ []) (t : FileTree) :
    t.entry? (.inside names) = t.entries.lookup names := entry?.eq_2 t names nonempty

section Put

variable {t : FileTree} {names : List String} (free : t.entry? (.inside names) ≠ some .directory)
  (e : FileEntry)

include free

theorem entry?_put_of_directory {place : Place} (directory : t.entry? place = some .directory) :
    FileTree.entry? (t.put names e) place = some .directory := by
  cases place with
  | outside => rfl
  | inside others =>
    have ne : others ≠ names := fun same => free (same ▸ directory)
    cases others with
    | nil => rfl
    | cons name more =>
      rw [entry?_inside (List.cons_ne_nil name more)] at directory ⊢
      have apart : (name :: more == names) = false := by simpa using ne
      rw [put, List.lookup_cons, apart]
      exact (lookup_filter_of_ne ne t.entries).trans directory

theorem entry?_put_self : FileTree.entry? (t.put names e) (.inside names) = some e := by
  have nonempty : names ≠ [] := by
    rintro rfl
    exact free rfl
  rw [entry?_inside nonempty, put, List.lookup_cons_self]

theorem follow_put {from_ place : Place} {pieces : List String}
    (done : t.follow from_ pieces = .ok place) :
    (t.put names e).follow from_ pieces = .ok place := by
  induction pieces generalizing from_ with
  | nil => exact done
  | cons piece rest ih =>
    rw [follow] at done ⊢
    cases here : t.entry? from_ with
    | none => simp [here] at done
    | some entry =>
      cases entry with
      | file content => simp [here] at done
      | directory =>
        simp only [here, entry?_put_of_directory free e here] at done ⊢
        split_ifs at done ⊢
        exact ih done

theorem place_put {path : String} {place : Place} (done : t.place path = .ok place) :
    (t.put names e).place path = .ok place := by
  unfold FileTree.place at done ⊢
  split_ifs at done ⊢
  all_goals exact follow_put free e done

end Put

theorem read_of_write {t written : FileTree} {path : String} {content : List UInt8}
    (done : t.write path content = .ok written) : written.read path = .ok content := by
  obtain ⟨names, ⟨leads, free⟩, rfl⟩ := (t.write_eq_ok_iff path content written).1 done
  have found : (t.put names (.file content)).find path = .ok (.file content) := by
    simp only [find, place_put free _ leads, bind, Except.bind, entry?_put_self free]
  rw [read, found]
  rfl

end DescriptorCheck.FileTree
