import DescriptorCheck.Text.Blank

set_option autoImplicit false

namespace DescriptorCheck.Text

theorem forall_of_all {p : Char → Bool} {b : Bool} {cs : List Char}
    (all : cs.all (p · == b) = true) : ∀ c ∈ cs, p c = b :=
  fun c mem => eq_of_beq (List.all_eq_true.1 all c mem)

theorem not_of_eq_false {p : Char → Bool} {cs : List Char} (free : ∀ c ∈ cs, p c = false) :
    ∀ c ∈ cs, (!p c) = true := by
  intro c mem
  rw [free c mem]
  rfl

theorem bne_of_not_mem {stop : Char} {cs : List Char} (free : stop ∉ cs) :
    ∀ c ∈ cs, (c != stop) = true := by
  intro c mem
  simpa using fun same : c = stop => free (same ▸ mem)

/-- Every list starts with a run of elements of a class, maybe none, and goes on without. -/
theorem exists_run {α : Type} (p : α → Bool) (cs : List α) : ∃ run rest, cs = run ++ rest ∧
    (∀ c ∈ run, p c = true) ∧ (∀ c ∈ rest.head?, p c = false) := by
  refine ⟨cs.takeWhile p, cs.dropWhile p, List.takeWhile_append_dropWhile.symm,
    fun c mem => List.all_eq_true.1 List.all_takeWhile c mem, ?_⟩
  have head := List.head?_dropWhile_not p cs
  intro c mem
  rwa [Option.mem_def.1 mem] at head

theorem takeWhile_append_of_ends {p : Char → Bool} {cs rest : List Char}
    (kept : ∀ c ∈ cs, p c = true) (ends : ∀ c ∈ rest.head?, p c = false) :
    (cs ++ rest).takeWhile p = cs := by
  rw [List.takeWhile_append_of_pos kept]
  cases rest with
  | nil => exact List.append_nil cs
  | cons c rest => simp [ends c rfl]

section Until

variable {p : Char → Bool} {cs : List Char} (kept : ∀ d ∈ cs, p d = true) {c : Char}
  (ends : p c = false) (rest : List Char)

include kept ends

theorem takeWhile_append_cons : (cs ++ c :: rest).takeWhile p = cs := by
  rw [List.takeWhile_append_of_pos kept, List.takeWhile_cons_of_neg (by simp [ends]),
    List.append_nil]

theorem dropWhile_append_cons : (cs ++ c :: rest).dropWhile p = c :: rest := by
  rw [List.dropWhile_append_of_pos kept, List.dropWhile_cons_of_neg (by simp [ends])]

end Until

theorem isBlankChar_of_isDigit {c : Char} (digit : c.isDigit = true) : isBlankChar c = false := by
  have bounds := Char.isDigit_iff_toNat.1 digit
  simp only [Char.reduceToNat] at bounds
  simp only [isBlankChar, blankRanges, List.any_cons, List.any_nil, Bool.or_false,
    Bool.or_eq_false_iff, Bool.and_eq_false_iff, decide_eq_false_iff_not]
  omega

/-- Text that neither starts nor ends with a blank. -/
structure IsTrimmed (cs : List Char) : Prop where
  head : ∀ c ∈ cs.head?, isBlankChar c = false
  last : ∀ c ∈ cs.getLast?, isBlankChar c = false

theorem trimStartChars_eq_self {cs : List Char} (solid : ∀ c ∈ cs.head?, isBlankChar c = false) :
    trimStartChars cs = cs := by
  cases cs with
  | nil => rfl
  | cons c rest => exact List.dropWhile_cons_of_neg (by simp [solid c rfl])

theorem trimChars_eq_self {cs : List Char} (trimmed : IsTrimmed cs) : trimChars cs = cs := by
  have ending : ∀ c ∈ cs.reverse.head?, isBlankChar c = false := by
    rw [List.head?_reverse]
    exact trimmed.last
  rw [trimChars, trimStartChars_eq_self trimmed.head, trimEndChars,
    trimStartChars_eq_self ending, List.reverse_reverse]

theorem isTrimmed_trimChars (cs : List Char) : IsTrimmed (trimChars cs) := by
  have starts (ds : List Char) : ∀ c ∈ (trimStartChars ds).head?, isBlankChar c = false := by
    intro c first
    have kept := List.head?_dropWhile_not isBlankChar ds
    rw [show ds.dropWhile isBlankChar = trimStartChars ds from rfl, first] at kept
    simpa using kept
  constructor
  · -- What is left at the start is not taken away from the end, unless nothing is left.
    have whole : trimChars cs <+: trimStartChars cs := by
      have ending := List.reverse_prefix.2 (List.dropWhile_suffix isBlankChar
        (l := (trimStartChars cs).reverse))
      rwa [List.reverse_reverse] at ending
    intro c first
    apply starts cs c
    obtain ⟨rest, same⟩ := whole
    rw [← same, List.head?_append, Option.mem_def.1 first]
    rfl
  · intro c last
    apply starts (trimStartChars cs).reverse c
    rwa [trimChars, trimEndChars, List.getLast?_reverse] at last

theorem trimChars_of_blank {cs : List Char} (blank : ∀ c ∈ cs, isBlankChar c = true) :
    trimChars cs = [] := by
  rw [trimChars, (trimStartChars_eq_nil_iff cs).2 (List.all_eq_true.2 blank)]
  rfl

end DescriptorCheck.Text
