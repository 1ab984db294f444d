import DescriptorCheck.Files.Tree
import DescriptorCheck.Proofs.Text.Span

set_option autoImplicit false

namespace DescriptorCheck

namespace Text

theorem splitChars_of_not_mem {separator : Char} {cs : List Char} (whole : separator ∉ cs) :
    splitChars separator cs = [cs] := by
  induction cs with
  | nil => rfl
  | cons c rest ih =>
    obtain ⟨differs, whole⟩ := List.ne_and_not_mem_of_not_mem_cons whole
    simp only [splitChars, if_neg differs.symm, ih whole]

theorem splitChars_append_separator (separator : Char) (before after : List Char) :
    splitChars separator (before ++ separator :: after) =
      splitChars separator before ++ splitChars separator after := by
  induction before with
  | nil => simp [splitChars]
  | cons c rest ih =>
    by_cases same : c = separator
    · simp only [List.cons_append, splitChars, if_pos same, ih]
    · obtain ⟨piece, pieces, split⟩ :=
        List.exists_cons_of_ne_nil (splitChars_ne_nil separator rest)
      simp only [List.cons_append, splitChars, if_neg same, ih, split]

theorem exists_splitChars_append (separator : Char) (cs : List Char) :
    ∃ front last, last <:+ cs ∧ ∀ more, separator ∉ more →
      splitChars separator (cs ++ more) = front ++ [last ++ more] := by
  by_cases split : separator ∈ cs
  · -- The last piece is what stands behind the last separator.
    obtain ⟨behind, before, turned, fresh⟩ :=
      List.eq_append_cons_of_mem (List.mem_reverse.2 split)
    have parts : cs = before.reverse ++ separator :: behind.reverse := by
      rw [← List.reverse_reverse cs, turned]
      simp
    refine ⟨splitChars separator before.reverse, behind.reverse, ?_, ?_⟩
    · exact ⟨before.reverse ++ [separator], by simp [parts]⟩
    · intro more whole
      have last : separator ∉ behind.reverse ++ more := by
        simp [fresh, whole]
      rw [parts, List.append_assoc, List.cons_append, splitChars_append_separator,
        splitChars_of_not_mem last]
  · refine ⟨[], cs, List.suffix_rfl, ?_⟩
    intro more whole
    exact splitChars_of_not_mem (by simp [split, whole])

end Text

namespace PathName

theorem exists_pieces_append (path : String) :
    ∃ above name, String.toList name <:+ path.toList ∧ ∀ more : String, '/' ∉ more.toList →
      pieces (path ++ more) = above ++ [name ++ more] := by
  obtain ⟨front, last, ending, split⟩ := Text.exists_splitChars_append '/' path.toList
  refine ⟨front.map String.ofList, String.ofList last, by simpa using ending, ?_⟩
  intro more whole
  simp [pieces, Text.split, split more.toList whole, String.ofList_append]

theorem trimIdle_append_singleton {name : String} (named : isIdle name = false)
    (above : List String) : trimIdle (above ++ [name]) = above ++ [name] := by
  simp [trimIdle, named]

theorem fileName?_of_pieces {path name : String} {above : List String}
    (last : pieces path = above ++ [name]) (named : isIdle name = false) :
    fileName? path = if name = ".." then none else some name := by
  have ending : (anchored path).2.getLast? = some name := by
    obtain ⟨filled, pointless⟩ : name ≠ "" ∧ name ≠ "." := by simpa [isIdle] using named
    unfold anchored
    rw [last]
    cases above with
    | nil => simp [trimIdle, named, filled, pointless]
    | cons first above =>
      rw [List.cons_append]
      split <;> rename_i rest same
      · obtain rfl := (List.cons.inj same).2
        simp [trimIdle_append_singleton named]
      · obtain rfl := (List.cons.inj same).2
        simp [trimIdle_append_singleton named]
      · rw [← List.cons_append, trimIdle_append_singleton named]
        exact List.getLast?_concat
  unfold fileName?
  rw [ending]
  by_cases up : name = ".."
  · simp [up]
  · simp [up]

theorem suffix_of_extension? {path name extension : String} (named : fileName? path = some name)
    (found : extension? path = some extension) : '.' :: extension.toList <:+ name.toList := by
  simp only [extension?, named, Option.bind_eq_bind, Option.bind_some] at found
  split at found
  · cases found
  · rename_i before
    obtain rfl := Option.some.inj found
    rw [← List.reverse_prefix, String.toList_ofList]
    obtain ⟨behind, rest, turned, kept, ends⟩ :=
      Text.exists_run (· != '.') name.toList.reverse
    rw [turned, Text.takeWhile_append_of_ends kept ends] at before ⊢
    cases rest with
    | nil => simp at before
    | cons c rest =>
      obtain rfl : c = '.' := by simpa using ends c rfl
      exact ⟨rest, by simp⟩

theorem extension?_append_gz {path name : String} {above : List String}
    (last : pieces (path ++ ".gz") = above ++ [name ++ ".gz"]) (filled : name ≠ "") :
    extension? (path ++ ".gz") = some "gz" := by
  have ends : (name ++ ".gz").toList.getLast? = some 'z' := by
    simp
  have differs {other : String} (others : other.toList.getLast? ≠ some 'z') :
      name ++ ".gz" ≠ other := by
    intro same
    exact others (same ▸ ends)
  have named : fileName? (path ++ ".gz") = some (name ++ ".gz") := by
    rw [fileName?_of_pieces last, if_neg (differs (by decide))]
    have pointless : name ++ ".gz" ≠ "." := differs (by decide)
    simpa [isIdle] using pointless
  have behind : (['z', 'g'] ++ '.' :: name.toList.reverse).takeWhile (· != '.') = ['z', 'g'] := by
    simp
  have turned : (name ++ ".gz").toList.reverse = ['z', 'g'] ++ '.' :: name.toList.reverse := by
    simp
  simp only [extension?, named, Option.bind_eq_bind, Option.bind_some, turned, behind]
  simp [filled]

end PathName

namespace FileTree

theorem follow_append (t : FileTree) (from_ : Place) (above below : List String) :
    t.follow from_ (above ++ below) = (t.follow from_ above).bind (t.follow · below) := by
  induction above generalizing from_ with
  | nil => rfl
  | cons piece above ih =>
    simp only [List.cons_append, follow]
    split
    · rfl
    · rfl
    · split
      · rfl
      · split
        · exact ih _
        · rfl

theorem entry?_of_follow_idle {t : FileTree} {from_ place : Place} {name : String}
    (idle : PathName.isIdle name = true) (found : t.follow from_ [name] = .ok place) :
    t.entry? place = some .directory := by
  simp only [follow] at found
  split at found
  · cases found
  · cases found
  · rename_i directory
    split at found
    · cases found
    · split at found
      · obtain rfl := Except.ok.inj found
        have stays : from_.step name = from_ := by
          cases from_ with
          | outside => rfl
          | inside names =>
            unfold Place.step
            split
            · cases idle
            · simp_all
            · simp_all
        rwa [stays]
      · cases found

theorem not_isIdle_of_read {t : FileTree} {path name : String} {above : List String}
    {content : List UInt8} (found : t.read path = .ok content)
    (last : PathName.pieces path = above ++ [name]) : PathName.isIdle name = false := by
  apply Bool.eq_false_iff.2
  intro idle
  have directory {place : Place} (led : t.place path = .ok place) :
      t.entry? place = some .directory := by
    unfold FileTree.place at led
    split at led
    · cases led
    · split at led
      · cases led
      · rw [last, follow_append] at led
        cases reached : t.follow
          (if PathName.isAbsolute path then .outside else .inside []) above with
        | error fault => simp [reached, Except.bind] at led
        | ok before =>
          rw [reached] at led
          exact entry?_of_follow_idle idle led
  cases led : t.place path with
  | error fault => simp [read, find, led, bind, Except.bind] at found
  | ok place => simp [read, find, led, directory led, bind, Except.bind] at found

end FileTree

end DescriptorCheck
