import DescriptorCheck.Proofs.Text.Span
import DescriptorCheck.Xml.Reference

set_option autoImplicit false

namespace DescriptorCheck.Xml.Reference
open Text (byteLength)

theorem replaceFrom_char {c : Char} (plain : c ≠ '&') (stop count start : Nat)
    (rest : List Char) : replaceFrom stop (count + 1) start (c :: rest) =
      (replaceFrom stop count (start + c.utf8Size) rest).map (c :: ·) := by
  rw [replaceFrom]
  · cases replaceFrom stop count (start + c.utf8Size) rest <;> rfl
  · exact plain

theorem replaceFrom_name {name : List Char} (free : ∀ d ∈ name, endsName d = false) {c : Char}
    (resolved : ∀ first, resolve first name = .ok c) (stop count start : Nat)
    (rest : List Char) : replaceFrom stop (count + 1) start ('&' :: (name ++ ';' :: rest)) =
      (replaceFrom stop count (start + byteLength name + 2) rest).map (c :: ·) := by
  have kept := Text.not_of_eq_false free
  have taken := Text.takeWhile_append_cons kept (c := ';') rfl rest
  have left := Text.dropWhile_append_cons kept (c := ';') rfl rest
  simp only [replaceFrom, left, taken, resolved]
  cases replaceFrom stop count (start + byteLength name + 2) rest <;> rfl

theorem escapeChar_cases (c : Char) :
    (∃ name, escapeChar c = '&' :: (name ++ [';']) ∧ (∀ first, resolve first name = .ok c) ∧
      ∀ d ∈ name, endsName d = false ∧ d ≠ '<') ∨
    (escapeChar c = [c] ∧ c ≠ '&' ∧ c ≠ '<') := by
  by_cases amp : c = '&'
  · subst amp
    exact .inl ⟨['a', 'm', 'p'], rfl, fun _ => rfl, by simp [endsName]⟩
  by_cases lt : c = '<'
  · subst lt
    exact .inl ⟨['l', 't'], rfl, fun _ => rfl, by simp [endsName]⟩
  by_cases gt : c = '>'
  · subst gt
    exact .inl ⟨['g', 't'], rfl, fun _ => rfl, by simp [endsName]⟩
  · refine .inr ⟨?_, amp, lt⟩
    rw [escapeChar]
    · exact amp
    · exact lt
    · exact gt

theorem escape_cons (c : Char) (cs : List Char) : escape (c :: cs) = escapeChar c ++ escape cs :=
  List.flatMap_cons

theorem not_mem_escape (cs : List Char) : '<' ∉ escape cs := by
  induction cs with
  | nil => exact List.not_mem_nil
  | cons c rest ih =>
    rw [escape_cons, List.mem_append, not_or]
    refine ⟨fun mem => ?_, ih⟩
    rcases escapeChar_cases c with ⟨name, written, -, free⟩ | ⟨written, -, other⟩
    · rw [written] at mem
      have inner : '<' ∈ name := by simpa using mem
      exact (free _ inner).2 rfl
    · rw [written] at mem
      exact other (List.mem_singleton.1 mem).symm

/-- What is counted while reading is used up one by one, and a reference is longer. -/
theorem replaceFrom_escape (stop : Nat) {count : Nat} (cs : List Char)
    (enough : (escape cs).length ≤ count) (start : Nat) :
    replaceFrom stop count start (escape cs) = .ok cs := by
  induction cs generalizing count start with
  | nil => rw [escape, List.flatMap_nil, replaceFrom]
  | cons c rest ih =>
    rw [escape_cons] at enough ⊢
    rcases escapeChar_cases c with ⟨name, written, resolved, free⟩ | ⟨written, plain, -⟩
    all_goals
      rw [written] at enough ⊢
      simp only [List.length_append, List.length_cons, List.length_nil] at enough
      obtain ⟨left, rfl⟩ := Nat.exists_eq_succ_of_ne_zero (n := count) (by omega)
    · rw [List.cons_append, List.append_assoc, List.singleton_append,
        replaceFrom_name (fun d mem => (free d mem).1) resolved, ih (by omega)]
      rfl
    · rw [List.singleton_append, replaceFrom_char plain, ih (by omega)]
      rfl

theorem replace_escape (cs : List Char) : replace (escape cs) = .ok cs :=
  replaceFrom_escape _ cs (Nat.le_refl _) 0

theorem replace_of_not_mem {cs : List Char} (plain : '&' ∉ cs) : replace cs = .ok cs := by
  have go (stop start : Nat) : replaceFrom stop cs.length start cs = .ok cs := by
    induction cs generalizing start with
    | nil => rw [replaceFrom]
    | cons c rest ih =>
      rw [List.mem_cons, not_or] at plain
      rw [List.length_cons, replaceFrom_char (Ne.symm plain.1), ih plain.2]
      rfl
  exact go _ 0

end DescriptorCheck.Xml.Reference
