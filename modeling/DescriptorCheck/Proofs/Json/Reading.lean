import DescriptorCheck.Proofs.Json.Form

set_option autoImplicit false

namespace DescriptorCheck.Json

theorem bind_eq_ok_iff {ε α β : Type} {x : Except ε α} {f : α → Except ε β} {b : β} :
    (x >>= f) = .ok b ↔ ∃ a, x = .ok a ∧ f a = .ok b := by
  cases x <;> simp [bind, Except.bind]

theorem readWord_ok {word cs rest : List Char} (done : readWord word cs = .ok ((), rest)) :
    cs = word ++ rest := by
  induction word generalizing cs with
  | nil =>
    cases done
    rfl
  | cons l word ih =>
    cases cs with
    | nil => contradiction
    | cons c cs =>
      rw [readWord] at done
      split at done
      · rename_i same
        rw [same, ih done, List.cons_append]
      · contradiction

namespace Quoted

theorem readUnit_ok {cs rest : List Char} {value : Nat} (done : readUnit cs = .ok (value, rest)) :
    ∃ u : CodeUnit, u.value = value ∧ cs = u.chars ++ rest := by
  unfold readUnit at done
  split at done
  · contradiction
  · split at done
    · split at done
      · rename_i reads
        cases done
        exact ⟨⟨_, _, _, _, _, reads⟩, rfl, rfl⟩
      · contradiction
    · contradiction

theorem readUnicode_ok {cs rest : List Char} {c : Char} (done : readUnicode cs = .ok (c, rest)) :
    ∃ p : Piece, p.char = c ∧ '\\' :: 'u' :: cs = p.chars ++ rest := by
  obtain ⟨⟨value, behind⟩, first, after⟩ := bind_eq_ok_iff.1 done
  obtain ⟨u, rfl, rfl⟩ := readUnit_ok first
  dsimp only at after
  split at after
  · cases after
  · rename_i not_trailing
    split at after
    · rename_i leading
      split at after
      · cases after
      · obtain ⟨⟨value, behind⟩, second, paired⟩ := bind_eq_ok_iff.1 after
        obtain ⟨v, rfl, rfl⟩ := readUnit_ok second
        dsimp only at paired
        split at paired
        · rename_i trailing
          simp only [Except.ok.injEq, Prod.mk.injEq] at paired
          obtain ⟨rfl, rfl⟩ := paired
          exact ⟨.pair u v ⟨leading, trailing⟩, rfl, by simp [Piece.chars]⟩
        · cases paired
      · split at after <;> cases after
      · cases after
    · rename_i not_leading
      cases after
      exact ⟨.unit u ⟨by simpa using not_trailing, by simpa using not_leading⟩, rfl, rfl⟩

theorem readEscape_ok {cs rest : List Char} {c : Char} (done : readEscape cs = .ok (c, rest)) :
    ∃ p : Piece, p.char = c ∧ '\\' :: cs = p.chars ++ rest := by
  unfold readEscape at done
  split at done
  · contradiction
  · exact readUnicode_ok done
  · have sign {letter c : Char} {cs : List Char} (known : (letter, c) ∈ signs) :
        ∃ p : Piece, p.char = c ∧ '\\' :: letter :: cs = p.chars ++ cs :=
      ⟨.sign letter c known, rfl, rfl⟩
    split at done
    case h_9 => contradiction
    all_goals
      cases done
      exact sign (by decide)

theorem readUpTo_ok {count : Nat} {cs rest chars : List Char}
    (done : readUpTo count cs = .ok (chars, rest)) :
    ∃ t : TextForm, t.pieces.map Piece.char = chars ∧ cs = t.inner ++ rest := by
  induction count generalizing cs chars with
  | zero => contradiction
  | succ count ih =>
    have next (p : Piece) {cs more} (read : readUpTo count cs = .ok (more, rest)) :
        ∃ t : TextForm, t.pieces.map Piece.char = p.char :: more ∧
          p.chars ++ cs = t.inner ++ rest := by
      obtain ⟨t, rfl, rfl⟩ := ih read
      exact ⟨⟨p :: t.pieces⟩, rfl, by simp [TextForm.inner]⟩
    unfold readUpTo at done
    split at done
    · contradiction
    · contradiction
    · cases done
      exact ⟨⟨[]⟩, rfl, rfl⟩
    · rename_i same
      cases same
      obtain ⟨⟨c, behind⟩, escape, done⟩ := bind_eq_ok_iff.1 done
      obtain ⟨⟨more, _⟩, read, done⟩ := bind_eq_ok_iff.1 done
      cases done
      obtain ⟨p, rfl, spelled⟩ := readEscape_ok escape
      rw [spelled]
      exact next p read
    · rename_i c behind not_quote not_backslash same
      cases same
      split at done
      · contradiction
      · rename_i not_control
        obtain ⟨⟨more, _⟩, read, done⟩ := bind_eq_ok_iff.1 done
        cases done
        exact next (.bare c ⟨not_control, by simpa using not_quote, by simpa using not_backslash⟩)
          read

theorem read_ok {cs rest : List Char} {text : String} (done : read cs = .ok (text, rest)) :
    ∃ t : TextForm, t.string = text ∧ cs = t.inner ++ rest := by
  obtain ⟨⟨chars, _⟩, read, done⟩ := bind_eq_ok_iff.1 done
  cases done
  obtain ⟨t, rfl, spelled⟩ := readUpTo_ok read
  exact ⟨t, rfl, spelled⟩

end Quoted

def Blanks.append (a b : Blanks) : Blanks :=
  ⟨a.chars ++ b.chars, fun c mem => (List.mem_append.1 mem).elim (a.blank c) (b.blank c)⟩

theorem skipBlanks_spec (cs : List Char) : ∃ gap : Blanks, cs = gap.chars ++ skipBlanks cs :=
  ⟨⟨cs.takeWhile isBlank, fun c mem => List.all_eq_true.1 List.all_takeWhile c mem⟩,
    List.takeWhile_append_dropWhile.symm⟩

/-- What is read from `cs` with `rest` left has its form between them. -/
def Reads (depth : Nat) (cs rest : List Char) (v : Value) : Prop :=
  ∃ (before : Blanks) (f : Form),
    cs = before.chars ++ (f.chars ++ rest) ∧ f.value = v ∧ f.depth ≤ depth

theorem Reads.behindBlanks {depth : Nat} {cs rest : List Char} {v : Value}
    (read : Reads depth (skipBlanks cs) rest v) : Reads depth cs rest v := by
  obtain ⟨gap, spelled⟩ := skipBlanks_spec cs
  obtain ⟨before, f, found, value, deep⟩ := read
  refine ⟨gap.append before, f, ?_, value, deep⟩
  rw [spelled, found]
  simp [Blanks.append]

section

variable {item : Reader Value} {depth : Nat}
  (forms : ∀ {cs rest v}, item cs = .ok (v, rest) → Reads depth cs rest v)

include forms

theorem readItems_ok {first : Bool} {count : Nat} {cs rest : List Char} {vs : List Value}
    (done : readItems item first count cs = .ok (vs, rest)) :
    (vs = [] ∧ ∃ gap : Blanks, cs = gap.chars ++ ']' :: rest) ∨
      ∃ items : ItemForms, items.values = vs ∧ items.depth ≤ depth ∧
        if first then cs = items.chars ++ rest
        else ∃ gap : Blanks, cs = gap.chars ++ ',' :: (items.chars ++ rest) := by
  induction count generalizing first cs vs with
  | zero => contradiction
  | succ count ih =>
    have more {cs : List Char} {vs : List Value}
        (done : (item (skipBlanks cs) >>= fun one => readItems item false count one.2 >>=
          fun others => .ok (one.1 :: others.1, others.2)) = Except.ok (vs, rest)) :
        ∃ items : ItemForms, items.values = vs ∧ items.depth ≤ depth ∧
          cs = items.chars ++ rest := by
      obtain ⟨⟨v, behind⟩, one, done⟩ := bind_eq_ok_iff.1 done
      obtain ⟨⟨others, _⟩, further, done⟩ := bind_eq_ok_iff.1 done
      cases done
      obtain ⟨before, f, rfl, rfl, deep⟩ := (forms one).behindBlanks
      obtain ⟨rfl, gap, rfl⟩ | ⟨items, rfl, deeper, gap, rfl⟩ := ih further
      · exact ⟨.last before f gap, rfl, deep, by simp [ItemForms.chars]⟩
      · exact ⟨.more before f gap items, rfl, Nat.max_le.2 ⟨deep, deeper⟩,
          by simp [ItemForms.chars]⟩
    obtain ⟨gap, spelled⟩ := skipBlanks_spec cs
    rw [readItems] at done
    split at done
    · contradiction
    · rename_i closes
      cases done
      rw [closes] at spelled
      exact .inl ⟨rfl, gap, spelled⟩
    · rename_i comma
      split at done
      · rename_i is_first
        rw [← comma] at done
        obtain ⟨items, values, deep, spelled⟩ := more done
        exact .inr ⟨items, values, deep, by rwa [if_pos is_first]⟩
      · rename_i later
        split at done
        · contradiction
        · contradiction
        · obtain ⟨items, values, deep, rfl⟩ := more done
          exact .inr ⟨items, values, deep, by rw [if_neg later]; exact ⟨gap, comma ▸ spelled⟩⟩
    · split at done
      · rename_i is_first
        obtain ⟨items, values, deep, spelled⟩ := more done
        exact .inr ⟨items, values, deep, by rwa [if_pos is_first]⟩
      · contradiction

theorem readColon_ok {cs rest : List Char} {v : Value}
    (done : readColon item cs = .ok (v, rest)) :
    ∃ gap behind, cs = Blanks.chars gap ++ ':' :: behind ∧ Reads depth behind rest v := by
  obtain ⟨gap, spelled⟩ := skipBlanks_spec cs
  unfold readColon at done
  split at done
  · contradiction
  · rename_i behind colon
    exact ⟨gap, behind, colon ▸ spelled, forms done⟩
  · contradiction

theorem readEntries_ok {first : Bool} {count : Nat} {cs rest : List Char}
    {vs : List (String × Value)} (done : readEntries item first count cs = .ok (vs, rest)) :
    (vs = [] ∧ ∃ gap : Blanks, cs = gap.chars ++ '\x7d' :: rest) ∨
      ∃ entries : EntryForms, entries.entries = vs ∧ entries.depth ≤ depth ∧
        if first then cs = entries.chars ++ rest
        else ∃ gap : Blanks, cs = gap.chars ++ ',' :: (entries.chars ++ rest) := by
  induction count generalizing first cs vs with
  | zero => contradiction
  | succ count ih =>
    -- An entry is read alike behind the brace and behind a comma.
    have more {cs quoted : List Char} {vs : List (String × Value)}
        (quote : skipBlanks cs = '"' :: quoted)
        (done : (Quoted.read quoted >>= fun key => readColon item key.2 >>=
          fun one => readEntries item false count one.2 >>=
          fun others => .ok ((key.1, one.1) :: others.1, others.2)) = Except.ok (vs, rest)) :
        ∃ entries : EntryForms, entries.entries = vs ∧ entries.depth ≤ depth ∧
          cs = entries.chars ++ rest := by
      obtain ⟨before, spelled⟩ := skipBlanks_spec cs
      obtain ⟨⟨key, behind⟩, keyed, done⟩ := bind_eq_ok_iff.1 done
      obtain ⟨⟨v, behind⟩, one, done⟩ := bind_eq_ok_iff.1 done
      obtain ⟨⟨others, _⟩, further, done⟩ := bind_eq_ok_iff.1 done
      cases done
      obtain ⟨t, rfl, rfl⟩ := Quoted.read_ok keyed
      obtain ⟨middle, behind, rfl, gap, f, rfl, rfl, deep⟩ := readColon_ok forms one
      rw [spelled, quote]
      obtain ⟨rfl, behind, rfl⟩ | ⟨entries, rfl, deeper, behind, rfl⟩ := ih further
      · exact ⟨.last before ⟨t, middle⟩ gap f behind, rfl, deep,
          by simp [EntryForms.chars, KeyForm.chars, TextForm.chars]⟩
      · exact ⟨.more before ⟨t, middle⟩ gap f behind entries, rfl, Nat.max_le.2 ⟨deep, deeper⟩,
          by simp [EntryForms.chars, KeyForm.chars, TextForm.chars]⟩
    obtain ⟨gap, spelled⟩ := skipBlanks_spec cs
    rw [readEntries] at done
    split at done
    · contradiction
    · rename_i closes
      cases done
      rw [closes] at spelled
      exact .inl ⟨rfl, gap, spelled⟩
    · rename_i comma
      split at done
      · contradiction
      · rename_i later
        split at done
        · contradiction
        · rename_i quote
          obtain ⟨entries, values, deep, rfl⟩ := more quote done
          exact .inr ⟨entries, values, deep, by rw [if_neg later]; exact ⟨gap, comma ▸ spelled⟩⟩
        · contradiction
        · contradiction
    · rename_i quote
      split at done
      · rename_i is_first
        obtain ⟨entries, values, deep, spelled⟩ := more quote done
        exact .inr ⟨entries, values, deep, by rwa [if_pos is_first]⟩
      · contradiction
    · contradiction

end

theorem readValue_ok {depth : Nat} {cs rest : List Char} {v : Value}
    (done : readValue depth cs = .ok (v, rest)) : Reads (depth - 1) cs rest v := by
  induction depth generalizing cs rest v with
  | zero => contradiction
  | succ depth ih =>
    obtain ⟨before, spelled⟩ := skipBlanks_spec cs
    have reads (f : Form) (found : skipBlanks cs = f.chars ++ rest) (deep : f.depth ≤ depth) :
        Reads (depth + 1 - 1) cs rest f.value :=
      ⟨before, f, found ▸ spelled, rfl, deep⟩
    -- The cases of the reader in order: words, a sign, strings, arrays, objects, digits.
    rw [readValue] at done
    split at done
    · contradiction
    · rename_i start
      obtain ⟨⟨⟨⟩, _⟩, word, done⟩ := bind_eq_ok_iff.1 done
      cases done
      exact reads (.word .null) (by rw [start, readWord_ok word]; rfl) (Nat.zero_le _)
    · rename_i start
      obtain ⟨⟨⟨⟩, _⟩, word, done⟩ := bind_eq_ok_iff.1 done
      cases done
      exact reads (.word .true) (by rw [start, readWord_ok word]; rfl) (Nat.zero_le _)
    · rename_i start
      obtain ⟨⟨⟨⟩, _⟩, word, done⟩ := bind_eq_ok_iff.1 done
      cases done
      exact reads (.word .false) (by rw [start, readWord_ok word]; rfl) (Nat.zero_le _)
    · rename_i start
      obtain ⟨⟨n, _⟩, number, done⟩ := bind_eq_ok_iff.1 done
      cases done
      obtain ⟨digits, rfl, -, again⟩ := Numeral.read_takes true number
      exact reads (.number ⟨true, digits, n, again⟩) start (Nat.zero_le _)
    · rename_i start
      obtain ⟨⟨text, _⟩, quoted, done⟩ := bind_eq_ok_iff.1 done
      cases done
      obtain ⟨t, rfl, rfl⟩ := Quoted.read_ok quoted
      exact reads (.text t) start (Nat.zero_le _)
    · rename_i start
      split at done
      · contradiction
      · rename_i nonzero
        obtain ⟨⟨items, _⟩, listed, done⟩ := bind_eq_ok_iff.1 done
        cases done
        obtain ⟨rfl, gap, rfl⟩ | ⟨items, rfl, deep, rfl⟩ := readItems_ok ih listed
        · exact reads (.emptyArray gap) (by simpa [Form.chars] using start)
            (by simp only [Form.depth]; omega)
        · exact reads (.array items) start (by simp only [Form.depth]; omega)
    · rename_i start
      split at done
      · contradiction
      · rename_i nonzero
        obtain ⟨⟨entries, _⟩, listed, done⟩ := bind_eq_ok_iff.1 done
        cases done
        obtain ⟨rfl, gap, rfl⟩ | ⟨entries, rfl, deep, rfl⟩ := readEntries_ok ih listed
        · exact reads (.emptyObject gap) (by simpa [Form.chars] using start)
            (by simp only [Form.depth]; omega)
        · exact reads (.object entries) start (by simp only [Form.depth]; omega)
    · rename_i c cs _ _ _ _ _ _ _ start
      split at done
      · obtain ⟨⟨n, _⟩, number, done⟩ := bind_eq_ok_iff.1 done
        cases done
        obtain ⟨digits, same, -, again⟩ := Numeral.read_takes false number
        exact reads (.number ⟨false, digits, n, again⟩) (by rw [start, same]; rfl) (Nat.zero_le _)
      · contradiction

theorem readAll_ok {cs : List Char} {v : Value} (done : readAll cs = .ok v) :
    ∃ s : Script, s.chars = cs ∧ s.form.value = v ∧ s.form.depth < depthLimit := by
  obtain ⟨⟨v, rest⟩, read, done⟩ := bind_eq_ok_iff.1 done
  obtain ⟨before, f, rfl, rfl, deep⟩ := readValue_ok read
  obtain ⟨behind, spelled⟩ := skipBlanks_spec rest
  dsimp only at done
  split at done
  · rename_i ends
    cases done
    rw [ends, List.append_nil] at spelled
    exact ⟨⟨before, f, behind⟩, by rw [Script.chars, spelled], rfl, Nat.lt_succ_of_le deep⟩
  · contradiction

end DescriptorCheck.Json
