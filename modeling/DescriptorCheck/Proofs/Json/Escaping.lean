import DescriptorCheck.Json.Quoted
import Mathlib.Logic.Basic

set_option autoImplicit false

namespace DescriptorCheck.Json

theorem length_le_length_flatMap {α β : Type} {f : α → List β} (filled : ∀ a, 1 ≤ (f a).length)
    (xs : List α) : xs.length ≤ (xs.flatMap f).length := by
  induction xs with
  | nil => exact Nat.le_refl 0
  | cons x xs ih =>
    have here := filled x
    simp only [List.flatMap_cons, List.length_append, List.length_cons]
    omega

namespace Quoted

theorem encodeChar_cases (c : Char) :
    (∃ letter, encodeChar c = ['\\', letter] ∧ ¬letter < ' ' ∧
      ∀ rest, readEscape (letter :: rest) = .ok (c, rest)) ∨
    (encodeChar c = ['\\', 'u', '0', '0', hexDigit (c.toNat / 16), hexDigit (c.toNat % 16)] ∧
      c < ' ') ∨
    (encodeChar c = [c] ∧ ¬c < ' ' ∧ c ≠ '"' ∧ c ≠ '\\') := by
  unfold encodeChar
  split
  · exact .inl ⟨'"', rfl, by decide, fun rest => rfl⟩
  · exact .inl ⟨'\\', rfl, by decide, fun rest => rfl⟩
  · exact .inl ⟨'b', rfl, by decide, fun rest => rfl⟩
  · exact .inl ⟨'f', rfl, by decide, fun rest => rfl⟩
  · exact .inl ⟨'n', rfl, by decide, fun rest => rfl⟩
  · exact .inl ⟨'r', rfl, by decide, fun rest => rfl⟩
  · exact .inl ⟨'t', rfl, by decide, fun rest => rfl⟩
  · rename_i quote backslash _ _ _ _ _
    split
    · rename_i control
      exact .inr (.inl ⟨rfl, control⟩)
    · rename_i printed
      exact .inr (.inr ⟨rfl, printed, quote, backslash⟩)

theorem readUnit_of_hexUnit? {a b c d : Char} {unit : Nat} (digits : hexUnit? a b c d = some unit)
    (rest : List Char) : readUnit (a :: b :: c :: d :: rest) = .ok (unit, rest) := by
  have long : ¬Text.byteLength (a :: b :: c :: d :: rest) < 4 := by
    have := a.utf8Size_pos
    have := b.utf8Size_pos
    have := c.utf8Size_pos
    have := d.utf8Size_pos
    simp only [Text.byteLength, List.foldr_cons]
    omega
  rw [readUnit, if_neg long]
  simp only [digits]

theorem readEscape_of_lt_space {c : Char} (control : c < ' ') (rest : List Char) :
    readEscape ('u' :: '0' :: '0' :: hexDigit (c.toNat / 16) :: hexDigit (c.toNat % 16) :: rest) =
      .ok (c, rest) := by
  have small : c.toNat < 32 := control
  have digits : ∀ n < 32, hexUnit? '0' '0' (hexDigit (n / 16)) (hexDigit (n % 16)) = some n := by
    decide
  have trailing : isTrailing c.toNat = false := by
    simp only [isTrailing, Bool.and_eq_false_iff, decide_eq_false_iff_not]
    omega
  have leading : isLeading c.toNat = false := by
    simp only [isLeading, Bool.and_eq_false_iff, decide_eq_false_iff_not]
    omega
  simp only [readEscape, readUnicode, readUnit_of_hexUnit? (digits c.toNat small), bind,
    Except.bind, trailing, leading, Bool.false_eq_true, if_false, Char.ofNat_toNat]

theorem not_lt_space_of_mem_encodeChar {c d : Char} (mem : d ∈ encodeChar c) : ¬d < ' ' := by
  obtain ⟨letter, written, printed, -⟩ | ⟨written, control⟩ | ⟨written, printed, -⟩ :=
    encodeChar_cases c
  · rw [written] at mem
    simp only [List.mem_cons, List.not_mem_nil, or_false] at mem
    rcases mem with rfl | rfl
    · decide
    · exact printed
  · have digits : ∀ n < 32, ['\\', 'u', '0', '0', hexDigit (n / 16), hexDigit (n % 16)].all
        (fun d => ¬d < ' ') = true := by decide
    rw [written] at mem
    exact of_decide_eq_true (List.all_eq_true.1 (digits c.toNat control) d mem)
  · rw [written, List.mem_singleton] at mem
    rwa [mem]

theorem readUpTo_encodeChar (c : Char) (count : Nat) (rest : List Char) :
    readUpTo (count + 1) (encodeChar c ++ rest) =
      (readUpTo count rest).map fun read => (c :: read.1, read.2) := by
  have escaped {spelling : List Char} (read : readEscape (spelling ++ rest) = .ok (c, rest)) :
      readUpTo (count + 1) ('\\' :: spelling ++ rest) =
        (readUpTo count rest).map fun read => (c :: read.1, read.2) := by
    rw [List.cons_append, readUpTo, read]
    rfl
  obtain ⟨letter, written, -, read⟩ | ⟨written, control⟩ | ⟨written, printed, quote, backslash⟩ :=
    encodeChar_cases c
  · rw [written]
    exact escaped (read rest)
  · rw [written]
    exact escaped (readEscape_of_lt_space control rest)
  · rw [written, List.singleton_append, readUpTo, if_neg printed]
    · rfl
    · exact fun same => quote same
    · exact fun same => backslash same

theorem readUpTo_encode {count : Nat} {cs : List Char} (rest : List Char)
    (enough : cs.length < count) :
    readUpTo count (cs.flatMap encodeChar ++ '"' :: rest) = .ok (cs, rest) := by
  induction cs generalizing count with
  | nil =>
    cases count with
    | zero => omega
    | succ count => rfl
  | cons c cs ih =>
    cases count with
    | zero => omega
    | succ count =>
      rw [List.flatMap_cons, List.append_assoc, readUpTo_encodeChar,
        ih (Nat.lt_of_succ_lt_succ enough)]
      rfl

theorem read_encode (s : String) (rest : List Char) :
    read (s.toList.flatMap encodeChar ++ '"' :: rest) = .ok (s, rest) := by
  have filled (c : Char) : 1 ≤ (encodeChar c).length := by
    obtain ⟨letter, written, -⟩ | ⟨written, -⟩ | ⟨written, -⟩ := encodeChar_cases c
    all_goals simp [written]
  have enough : s.toList.length < (s.toList.flatMap encodeChar ++ '"' :: rest).length + 1 := by
    have all := length_le_length_flatMap filled s.toList
    rw [List.length_append]
    omega
  simp only [read, readUpTo_encode rest enough, bind, Except.bind, String.ofList_toList]

end Quoted

end DescriptorCheck.Json
