import DescriptorCheck.Number.Radix
import DescriptorCheck.Proofs.Path.Rendering

set_option autoImplicit false

namespace DescriptorCheck

namespace Number

theorem digitValue?_of_isDigit {c : Char} (digit : c.isDigit = true) :
    digitValue? 10 c = some (digitValue c) := by
  have bounds := Char.isDigit_iff_toNat.1 digit
  have small : digitValue c < 10 := by
    simp only [Char.reduceToNat, digitValue] at bounds ⊢
    omega
  simp [digitValue?, digit, small]

theorem foldlM_digitValue? {digits : List Char} (all : ∀ c ∈ digits, c.isDigit = true) (n : Nat) :
    digits.foldlM (fun n c => (digitValue? 10 c).map (n * 10 + ·)) n =
      some (Nat.ofDigitChars 10 digits n) := by
  induction digits generalizing n with
  | nil => rfl
  | cons c rest ih =>
    rw [List.foldlM_cons, digitValue?_of_isDigit (all c (List.mem_cons_self ..))]
    change rest.foldlM _ (n * 10 + digitValue c) = _
    rw [ih fun d mem => all d (List.mem_cons_of_mem c mem), Nat.mul_comm n 10]
    rfl

theorem naturalIn?_naturalDigits (n : Nat) : naturalIn? 10 (naturalDigits n) = some n := by
  have nonempty : (naturalDigits n).isEmpty = false := by
    simp [naturalDigits]
  rw [naturalIn?, nonempty]
  change (naturalDigits n).foldlM _ 0 = _
  rw [foldlM_digitValue? (fun c => isDigit_of_mem_naturalDigits) 0]
  exact congrArg some (Nat.ofDigitChars_toDigits (by decide) (by decide))

end Number

instance (c : Char) : Decidable (IsSeparator c) := inferInstanceAs (Decidable (c = '.' ∨ c = '['))

namespace Step

def piece (s : Step) : Char × List Char := (s.joint, s.bare)

def ofPiece? (piece : Char × List Char) : Option Step :=
  if piece.1 = '.' then some (.key (String.ofList piece.2))
  else if piece.2.getLast? = some ']' then (Number.naturalIn? 10 piece.2.dropLast).map .index
  else none

theorem ofPiece?_piece (s : Step) : ofPiece? s.piece = some s := by
  cases s with
  | key k => simp [ofPiece?, piece, joint, bare]
  | index i => simp [ofPiece?, piece, joint, bare, Number.naturalIn?_naturalDigits]

end Step

namespace Position

/-- The text before the first separator, and each separator with the text behind it. -/
def pieces : List Char → List Char × List (Char × List Char)
  | [] => ([], [])
  | c :: rest =>
    let (front, behind) := pieces rest
    if IsSeparator c then ([], (c, front) :: behind) else (c :: front, behind)

/-- The position whose steps a path text spells. Text before the first separator is
a key, which stands there without a point. -/
def ofPath? (path : String) : Option Position :=
  let (front, behind) := pieces path.toList
  let below := behind.mapM Step.ofPiece?
  if front = [] then below else below.map (.key (String.ofList front) :: ·)

theorem pieces_append {xs : List Char} (free : ∀ c ∈ xs, ¬IsSeparator c) (cs : List Char) :
    pieces (xs ++ cs) = (xs ++ (pieces cs).1, (pieces cs).2) := by
  induction xs with
  | nil => rfl
  | cons c rest ih =>
    have tail := ih fun d mem => free d (List.mem_cons_of_mem c mem)
    have head := free c (List.mem_cons_self ..)
    simp [pieces, tail, head]

theorem pieces_chars {p : Position} (plain : IsPlain p) :
    pieces (p.flatMap Step.chars) = ([], p.map Step.piece) := by
  induction p with
  | nil => rfl
  | cons s p ih =>
    rw [List.flatMap_cons, Step.chars, List.cons_append, pieces,
      pieces_append (Step.not_isSeparator_of_mem_bare plain.head), ih plain.tail]
    simp [s.isSeparator_joint, Step.piece]

theorem mapM_ofPiece? (p : Position) : (p.map Step.piece).mapM Step.ofPiece? = some p := by
  induction p with
  | nil => rfl
  | cons s p ih =>
    rw [List.map_cons, List.mapM_cons, s.ofPiece?_piece, ih]
    rfl

theorem ofPath?_path {p : Position} (plain : IsPlain p) : ofPath? (path p) = some p := by
  cases p with
  | nil => rfl
  | cons s p =>
    unfold ofPath?
    rw [toList_path_cons plain]
    cases s with
    | key k =>
      have key : IsPlainKey k := plain.head
      have cut : pieces (Step.lead "" (.key k) ++ Step.bare (.key k) ++ p.flatMap Step.chars) =
          (k.toList, p.map Step.piece) := by
        change pieces (k.toList ++ p.flatMap Step.chars) = _
        rw [pieces_append key.not_isSeparator, pieces_chars plain.tail, List.append_nil]
      rw [cut]
      change (if k.toList = [] then _ else ((p.map Step.piece).mapM Step.ofPiece?).map _) = _
      rw [if_neg key.1, mapM_ofPiece?, Option.map_some, String.ofList_toList]
    | index i =>
      -- An index begins with its bracket even at the front, so no key stands before it.
      have cut : pieces (Step.lead "" (.index i) ++ Step.bare (.index i) ++ p.flatMap Step.chars) =
          ([], (Step.index i :: p).map Step.piece) := pieces_chars plain
      rw [cut]
      exact mapM_ofPiece? (Step.index i :: p)

theorem eq_of_path_eq {p q : Position} (hp : IsPlain p) (hq : IsPlain q) (same : path p = path q) :
    p = q := by
  have read := congrArg ofPath? same
  rw [ofPath?_path hp, ofPath?_path hq] at read
  exact Option.some.inj read

end Position

end DescriptorCheck
