import DescriptorCheck.Proofs.Text.Span
import DescriptorCheck.Xml.Event
import Mathlib.Tactic.SplitIfs

set_option autoImplicit false

namespace DescriptorCheck.Xml.Event

theorem exists_of_map_cons {c : Char} {found : Option (List Char × List Char)}
    {before rest : List Char}
    (split : (found.map fun (front, rest) => (c :: front, rest)) = some (before, rest)) :
    ∃ front, found = some (front, rest) ∧ before = c :: front := by
  obtain ⟨⟨front, left⟩, inner, same⟩ := Option.map_eq_some_iff.1 split
  cases same
  exact ⟨front, inner, rfl⟩

theorem eq_of_splitAt? {ending cs before rest : List Char}
    (split : splitAt? ending cs = some (before, rest)) : cs = before ++ ending ++ rest := by
  induction cs generalizing before with
  | nil => exact absurd split nofun
  | cons c more ih =>
    rw [splitAt?] at split
    split_ifs at split with starts
    · obtain ⟨behind, whole⟩ := List.isPrefixOf_iff_prefix.1 starts
      cases split
      rw [← whole, List.drop_left, List.nil_append]
    · obtain ⟨front, inner, rfl⟩ := exists_of_map_cons split
      rw [ih inner]
      rfl

theorem eq_of_splitTag? {quote : Option Char} {cs before rest : List Char}
    (split : splitTag? quote cs = some (before, rest)) : cs = before ++ '>' :: rest := by
  fun_induction splitTag? quote cs generalizing before with
  | case1 => exact absurd split nofun
  | case2 => cases split; rfl
  | case3 =>
    rename_i ih
    obtain ⟨front, inner, rfl⟩ := exists_of_map_cons split
    rw [ih inner]
    rfl

theorem eq_of_splitDoctype? {open_ : Nat} {cs before rest : List Char}
    (split : splitDoctype? open_ cs = some (before, rest)) : cs = before ++ '>' :: rest := by
  fun_induction splitDoctype? open_ cs generalizing before with
  | case1 => exact absurd split nofun
  | case2 => cases split; rfl
  | case3 _ _ ih =>
    obtain ⟨front, inner, rfl⟩ := exists_of_map_cons split
    rw [ih inner]
    rfl
  | case4 =>
    rename_i ih
    obtain ⟨front, inner, rfl⟩ := exists_of_map_cons split
    rw [ih inner]
    rfl

section Suffix

variable {cs rest : List Char} {e : Event}

theorem suffix_of_readComment (read : readComment cs = .ok (e, rest)) : rest <:+ cs := by
  rw [readComment] at read
  split at read
  · exact absurd read nofun
  · next before behind split =>
    split_ifs at read
    cases read
    have inner : rest <:+ cs.drop 1 := eq_of_splitAt? split ▸ List.suffix_append ..
    exact inner.trans (List.drop_suffix 1 cs)

theorem suffix_of_readData (read : readData cs = .ok (e, rest)) : rest <:+ cs := by
  rw [readData] at read
  split at read
  · exact absurd read nofun
  · next before behind split =>
    split at read
    · cases read
      exact eq_of_splitAt? split ▸ List.suffix_append ..
    · exact absurd read nofun

theorem suffix_of_splitDoctype? {open_ : Nat} {before : List Char}
    (split : splitDoctype? open_ cs = some (before, rest)) : rest <:+ cs :=
  eq_of_splitDoctype? split ▸ (List.suffix_cons '>' rest).trans (List.suffix_append ..)

theorem suffix_of_splitTag? {quote : Option Char} {before : List Char}
    (split : splitTag? quote cs = some (before, rest)) : rest <:+ cs :=
  eq_of_splitTag? split ▸ (List.suffix_cons '>' rest).trans (List.suffix_append ..)

theorem suffix_of_readDoctype (read : readDoctype cs = .ok (e, rest)) : rest <:+ cs := by
  rw [readDoctype] at read
  split at read
  · exact absurd read nofun
  · next before behind split =>
    split_ifs at read
    cases read
    exact suffix_of_splitDoctype? split

theorem suffix_of_readInstruction (read : readInstruction cs = .ok (e, rest)) : rest <:+ cs := by
  rw [readInstruction.eq_def] at read
  split at read
  · exact absurd read nofun
  · split at read
    · next before behind split =>
      cases read
      exact eq_of_splitAt? split ▸ List.suffix_append ..
    · exact absurd read nofun

variable {opened outer : List (List Char)}

theorem ok_of_map_aside {result : Except Fault (Event × List Char)}
    (read : (result.map fun (event, rest) => (event, opened, rest)) = .ok (e, outer, rest)) :
    result = .ok (e, rest) ∧ outer = opened := by
  cases result with
  | error _ => exact absurd read nofun
  | ok taken => cases read; exact ⟨rfl, rfl⟩

theorem suffix_of_readMarkup (read : readMarkup opened cs = .ok (e, outer, rest)) :
    rest <:+ cs := by
  rw [readMarkup.eq_def] at read
  split at read
  · next more =>
    refine List.IsSuffix.trans ?_ (List.suffix_cons '!' more)
    split at read
    · exact (suffix_of_readComment (ok_of_map_aside read).1).trans (List.suffix_cons '-' _)
    · exact suffix_of_readData (ok_of_map_aside read).1
    · exact suffix_of_readDoctype (ok_of_map_aside read).1
    · exact suffix_of_readDoctype (ok_of_map_aside read).1
    · exact absurd read nofun
  · next more =>
    exact (suffix_of_readInstruction (ok_of_map_aside read).1).trans (List.suffix_cons '?' more)
  · split at read
    · exact absurd read nofun
    · next content behind split =>
      split at read
      · exact absurd read nofun
      · dsimp only at read
        split_ifs at read
        cases read
        exact suffix_of_splitTag? split
  · split at read
    · exact absurd read nofun
    · next content behind split =>
      split_ifs at read
      · cases read
        exact suffix_of_splitTag? split
      · cases read
        exact suffix_of_splitTag? split

end Suffix

def readIn (opened : List (List Char)) (cs : List Char) : List (Except Fault Event) :=
  readFrom (cs.length + 1) opened cs

theorem length_dropWhile_le {c : Char} (text : c ≠ '<') (more : List Char) :
    ((c :: more).dropWhile (· != '<')).length ≤ more.length := by
  rw [List.dropWhile_cons, if_pos (by simpa using text)]
  exact (List.dropWhile_suffix _).length_le

theorem readFrom_text {c : Char} (text : c ≠ '<') (count : Nat) (opened : List (List Char))
    (more : List Char) : readFrom (count + 1) opened (c :: more) =
      .ok (.text ((c :: more).takeWhile (· != '<'))) ::
        readFrom count opened ((c :: more).dropWhile (· != '<')) := by
  rw [readFrom.eq_def]
  split <;> simp_all

theorem readFrom_congr {count other : Nat} {cs : List Char} (enough : cs.length < count)
    (also : cs.length < other) (opened : List (List Char)) :
    readFrom count opened cs = readFrom other opened cs := by
  induction count generalizing other opened cs with
  | zero => omega
  | succ count ih =>
    obtain ⟨other, rfl⟩ := Nat.exists_eq_succ_of_ne_zero (Nat.ne_zero_of_lt also)
    cases cs with
    | nil => rfl
    | cons c more =>
      simp only [List.length_cons, Nat.add_lt_add_iff_right, Nat.succ_eq_add_one] at enough also
      by_cases markup : c = '<'
      · subst markup
        simp only [readFrom]
        cases read : readMarkup opened more with
        | error fault => rfl
        | ok taken =>
          obtain ⟨e, outer, rest⟩ := taken
          have shorter := (suffix_of_readMarkup read).length_le
          exact congrArg (_ :: ·) (ih (by omega) (by omega) outer)
      · have shorter := length_dropWhile_le markup more
        rw [readFrom_text markup, readFrom_text markup]
        exact congrArg (_ :: ·) (ih (by omega) (by omega) opened)

theorem readIn_nil (opened : List (List Char)) : readIn opened [] = [] := rfl

theorem readIn_markup {opened outer : List (List Char)} {cs rest : List Char} {e : Event}
    (read : readMarkup opened cs = .ok (e, outer, rest)) :
    readIn opened ('<' :: cs) = .ok e :: readIn outer rest := by
  have shorter := (suffix_of_readMarkup read).length_le
  rw [readIn, List.length_cons, readFrom, read]
  exact congrArg (_ :: ·) (readFrom_congr (by omega) (by omega) outer)

theorem readIn_text {cs : List Char} (nonempty : cs ≠ []) (free : '<' ∉ cs)
    (opened : List (List Char)) (rest : List Char) :
    readIn opened (cs ++ '<' :: rest) = .ok (.text cs) :: readIn opened ('<' :: rest) := by
  have kept := Text.bne_of_not_mem free
  have taken := Text.takeWhile_append_cons kept (c := '<') rfl rest
  have left := Text.dropWhile_append_cons kept (c := '<') rfl rest
  obtain ⟨c, more, rfl⟩ := List.exists_cons_of_ne_nil nonempty
  have text : c ≠ '<' := fun same => free (same ▸ List.mem_cons_self ..)
  rw [List.cons_append] at taken left ⊢
  rw [readIn, List.length_cons, readFrom_text text, taken, left]
  refine congrArg (_ :: ·) (readFrom_congr ?_ (Nat.lt_succ_self _) opened)
  simp only [List.length_append, List.length_cons]
  omega

theorem read_eq_readIn (cs : List Char) : read cs = readIn [] cs := rfl

end DescriptorCheck.Xml.Event
