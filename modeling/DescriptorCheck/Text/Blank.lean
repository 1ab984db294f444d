set_option autoImplicit false

/-! The characters of the Unicode property White_Space. A byte order mark is none of them, and
neither is a zero-width space, so neither is trimmed. -/
namespace DescriptorCheck.Text

/-- The ranges of code points, both ends included, that make up White_Space. -/
def blankRanges : List (Nat × Nat) :=
  [(0x09, 0x0D), (0x20, 0x20), (0x85, 0x85), (0xA0, 0xA0), (0x1680, 0x1680),
   (0x2000, 0x200A), (0x2028, 0x2029), (0x202F, 0x202F), (0x205F, 0x205F), (0x3000, 0x3000)]

def isBlankChar (c : Char) : Bool :=
  blankRanges.any fun range => range.1 ≤ c.toNat && c.toNat ≤ range.2

def trimStartChars (cs : List Char) : List Char := cs.dropWhile isBlankChar

def trimEndChars (cs : List Char) : List Char := (trimStartChars cs.reverse).reverse

def trimChars (cs : List Char) : List Char := trimEndChars (trimStartChars cs)

def isBlank (s : String) : Bool := s.toList.all isBlankChar

theorem trimStartChars_eq_nil_iff (cs : List Char) :
    trimStartChars cs = [] ↔ cs.all isBlankChar = true := by
  induction cs with
  | nil => simp [trimStartChars]
  | cons c rest ih =>
    simp only [trimStartChars, List.dropWhile_cons, List.all_cons, Bool.and_eq_true]
    cases h : isBlankChar c with
    | false => simp
    | true => simp [← ih, trimStartChars]

end DescriptorCheck.Text
