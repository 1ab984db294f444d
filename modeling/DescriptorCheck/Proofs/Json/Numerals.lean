import DescriptorCheck.Json.Numeral
import DescriptorCheck.Number.Reading
import DescriptorCheck.Proofs.Text.Span
import Mathlib.Data.List.TakeWhile

set_option autoImplicit false

namespace DescriptorCheck.Json.Numeral
open Number (digitValue naturalOf)

/-- The characters that numbers are written with, the sign in front included. -/
def isFigure (c : Char) : Bool :=
  c.isDigit || c == '.' || c == 'e' || c == 'E' || c == '+' || c == '-'

/-- What is read from `cs` with `rest` left is spelled by figures that read the same alone. -/
def Takes {α : Type} (read : Reader α) : Prop :=
  ∀ ⦃cs a rest⦄, read cs = .ok (a, rest) →
    ∃ taken, cs = taken ++ rest ∧ (∀ c ∈ taken, isFigure c = true) ∧ read taken = .ok (a, [])

theorem isFigure_of_isDigit {c : Char} (digit : c.isDigit = true) : isFigure c = true := by
  simp [isFigure, digit]

theorem appendDigits_spec {significand count s n : Nat} {cs rest : List Char}
    (appended : appendDigits significand count cs = (s, n, rest)) :
    ∃ digits, cs = digits ++ rest ∧ (∀ c ∈ digits, c.isDigit = true) ∧
      ∀ other, (∀ c ∈ other.head?, rest.head? = some c) →
        appendDigits significand count (digits ++ other) = (s, n, other) := by
  induction cs generalizing significand count with
  | nil =>
    simp only [appendDigits, Prod.mk.injEq] at appended
    obtain ⟨rfl, rfl, rfl⟩ := appended
    refine ⟨[], rfl, by simp, ?_⟩
    intro other starts
    cases other with
    | nil => rfl
    | cons c _ => simpa using starts c rfl
  | cons c cs ih =>
    rw [appendDigits] at appended
    split at appended
    · rename_i fits
      obtain ⟨digits, rfl, all, again⟩ := ih appended
      refine ⟨c :: digits, rfl, ?_, ?_⟩
      · simp only [List.mem_cons, forall_eq_or_imp]
        exact ⟨(Bool.and_eq_true _ _ ▸ fits).1, all⟩
      · intro other starts
        rw [List.cons_append, appendDigits, if_pos fits, again other starts]
    · rename_i stops
      simp only [Prod.mk.injEq] at appended
      obtain ⟨rfl, rfl, rfl⟩ := appended
      refine ⟨[], rfl, by simp, ?_⟩
      intro other starts
      cases other with
      | nil => rfl
      | cons d others =>
        obtain rfl : c = d := by simpa using starts d rfl
        rw [List.nil_append, appendDigits, if_neg stops]

theorem exponentDigits_ok {start exponent : Nat} {cs rest : List Char}
    (read : exponentDigits start cs = .ok (exponent, rest)) :
    ∃ digits, cs = digits ++ rest ∧ (∀ c ∈ digits, c.isDigit = true) ∧
      exponentDigits start digits = .ok (exponent, []) := by
  induction cs generalizing start with
  | nil =>
    cases read
    exact ⟨[], rfl, by simp, rfl⟩
  | cons c cs ih =>
    rw [exponentDigits] at read
    split at read
    · rename_i digit
      split at read
      · rename_i fits
        obtain ⟨digits, rfl, all, again⟩ := ih read
        refine ⟨c :: digits, rfl, by simpa using ⟨digit, all⟩, ?_⟩
        rw [exponentDigits, if_pos digit, if_pos fits, again]
      · contradiction
    · cases read
      exact ⟨[], rfl, by simp, rfl⟩

theorem exponentDigits_error {start : Nat} {cs rest : List Char}
    (read : exponentDigits start cs = .error rest) :
    ∃ digits, cs = digits ++ rest ∧ (∀ c ∈ digits, c.isDigit = true) ∧
      ∀ other, exponentDigits start (digits ++ other) = .error other := by
  induction cs generalizing start with
  | nil => cases read
  | cons c cs ih =>
    rw [exponentDigits] at read
    split at read
    · rename_i digit
      split at read
      · rename_i fits
        obtain ⟨digits, rfl, all, again⟩ := ih read
        refine ⟨c :: digits, rfl, by simpa using ⟨digit, all⟩, ?_⟩
        intro other
        rw [List.cons_append, exponentDigits, if_pos digit, if_pos fits, again]
      · rename_i long
        cases read
        refine ⟨[c], rfl, by simpa using digit, ?_⟩
        intro other
        rw [List.singleton_append, exponentDigits, if_pos digit, if_neg long]
    · contradiction

theorem head?_of_append {cs taken rest : List Char} (spelled : cs = taken ++ rest) :
    ∀ c ∈ taken.head?, cs.head? = some c := by
  intro c starts
  rw [spelled, List.head?_append, starts]
  rfl

theorem dropWhile_of_prefix {p : Char → Bool} {cs taken rest : List Char}
    (spelled : cs.dropWhile p = taken ++ rest) : taken.dropWhile p = taken := by
  cases taken with
  | nil => rfl
  | cons c taken =>
    have head := List.head?_dropWhile_not p cs
    rw [spelled] at head
    exact List.dropWhile_cons_of_neg (by simpa using head)

/-- A reader may pass over digits first: the same ones are there where nothing follows. -/
theorem Takes.behindDigits {α : Type} {read : Reader α} (takes : Takes read)
    {cs rest : List Char} {a : α} (done : read (cs.dropWhile Char.isDigit) = .ok (a, rest)) :
    ∃ taken, cs = taken ++ rest ∧ (∀ c ∈ taken, isFigure c = true) ∧
      read (taken.dropWhile Char.isDigit) = .ok (a, []) ∧
      taken.takeWhile Char.isDigit = cs.takeWhile Char.isDigit := by
  obtain ⟨taken, spelled, figures, again⟩ := takes done
  have digits : ∀ c ∈ cs.takeWhile Char.isDigit, c.isDigit = true :=
    fun c mem => List.all_eq_true.1 List.all_takeWhile c mem
  have solid := dropWhile_of_prefix spelled
  have no_digit : taken.takeWhile Char.isDigit = [] := by
    have parts := List.takeWhile_append_dropWhile (p := Char.isDigit) (l := taken)
    rwa [solid, List.append_left_eq_self] at parts
  refine ⟨cs.takeWhile Char.isDigit ++ taken, ?_, ?_, ?_, ?_⟩
  · rw [List.append_assoc, ← spelled, List.takeWhile_append_dropWhile]
  · intro c mem
    rcases List.mem_append.1 mem with mem | mem
    · exact isFigure_of_isDigit (digits c mem)
    · exact figures c mem
  · rw [List.dropWhile_append_of_pos digits, solid, again]
  · rw [List.takeWhile_append_of_pos digits, no_digit, List.append_nil]

theorem Takes.cons {α : Type} {read : Reader α} (takes : Takes read) (c : Char)
    (figure : isFigure c = true) {cs rest : List Char} {a : α} (done : read cs = .ok (a, rest)) :
    ∃ taken, c :: cs = c :: taken ++ rest ∧ (∀ d ∈ c :: taken, isFigure d = true) ∧
      read taken = .ok (a, []) := by
  obtain ⟨taken, rfl, figures, again⟩ := takes done
  exact ⟨taken, rfl, by simpa using ⟨figure, figures⟩, again⟩

theorem finish_eq_ok_iff {negative : Bool} {significand : Nat} {exponent : Int} {cs : List Char}
    {result : Number × List Char} :
    finish negative significand exponent cs = .ok result ↔
      ∃ x, scale? significand exponent = some x ∧ (.float (.finite negative x), cs) = result := by
  -- Unfolded at its arguments, `finish` would have the kernel compute with the unit of magnitudes.
  generalize unfolded : finish = read
  delta finish at unfolded
  subst unfolded
  dsimp only
  generalize scale? significand exponent = scaled
  cases scaled <;> simp

theorem finish_ok {negative : Bool} {significand : Nat} {exponent : Int} {cs rest : List Char}
    {n : Number} (done : finish negative significand exponent cs = .ok (n, rest)) :
    rest = cs ∧ ∀ other, finish negative significand exponent other = .ok (n, other) := by
  obtain ⟨x, scaled, same⟩ := finish_eq_ok_iff.1 done
  cases same
  exact ⟨rfl, fun _ => finish_eq_ok_iff.2 ⟨x, scaled, rfl⟩⟩

def readUnsigned (negative : Bool) (significand : Nat) (shift : Int) (down : Bool) :
    Reader Number
  | [] => .error (.before .endInValue [])
  | c :: rest =>
    if c.isDigit then
      match exponentDigits (digitValue c) rest with
      | .ok (exponent, rest) =>
        finish negative significand
          (clampExponent (if down then shift - exponent else shift + exponent)) rest
      | .error rest =>
        if significand ≠ 0 && !down then .error (.before .numberOutOfRange rest)
        else .ok (.float (.zero negative), rest.dropWhile Char.isDigit)
    else .error (.behind 1 .invalidNumber (c :: rest))

theorem readExponent_plus (negative : Bool) (significand : Nat) (shift : Int) (rest : List Char) :
    readExponent negative significand shift ('+' :: rest) =
      readUnsigned negative significand shift false rest := by
  cases rest <;> rfl

theorem readExponent_minus (negative : Bool) (significand : Nat) (shift : Int)
    (rest : List Char) : readExponent negative significand shift ('-' :: rest) =
      readUnsigned negative significand shift true rest := by
  cases rest <;> rfl

theorem readExponent_unsigned (negative : Bool) (significand : Nat) (shift : Int)
    {cs : List Char} (plus : ∀ rest, cs ≠ '+' :: rest) (minus : ∀ rest, cs ≠ '-' :: rest) :
    readExponent negative significand shift cs =
      readUnsigned negative significand shift false cs := by
  unfold readExponent
  split
  rename_i down digits signed
  split at signed <;> cases signed
  · exact absurd rfl (plus digits)
  · exact absurd rfl (minus digits)
  · cases cs <;> rfl

theorem readUnsigned_takes (negative : Bool) (significand : Nat) (shift : Int) (down : Bool) :
    Takes (readUnsigned negative significand shift down) := by
  intro cs n rest done
  cases cs with
  | nil => contradiction
  | cons c cs =>
    rw [readUnsigned] at done
    split at done
    case isFalse => contradiction
    rename_i digit
    have figure := isFigure_of_isDigit digit
    cases read : exponentDigits (digitValue c) cs with
    | ok result =>
      obtain ⟨exponent, behind⟩ := result
      simp only [read] at done
      obtain ⟨digits, rfl, all, again⟩ := exponentDigits_ok read
      obtain ⟨rfl, finished⟩ := finish_ok done
      refine ⟨c :: digits, rfl, ?_, ?_⟩
      · simpa using ⟨figure, fun d mem => isFigure_of_isDigit (all d mem)⟩
      · simp only [readUnsigned, digit, if_true, again]
        exact finished []
    | error behind =>
      obtain ⟨digits, rfl, all, again⟩ := exponentDigits_error read
      simp only [read] at done
      split at done
      · contradiction
      · rename_i small
        cases done
        have span : ∀ d ∈ behind.takeWhile Char.isDigit, d.isDigit = true :=
          fun d mem => List.all_eq_true.1 List.all_takeWhile d mem
        refine ⟨c :: (digits ++ behind.takeWhile Char.isDigit), ?_, ?_, ?_⟩
        · simp
        · simp only [List.mem_cons, List.mem_append, forall_eq_or_imp]
          exact ⟨figure, fun d mem => isFigure_of_isDigit (mem.elim (all d) (span d))⟩
        · have passed : (behind.takeWhile Char.isDigit).dropWhile Char.isDigit = [] := by
            exact List.dropWhile_eq_nil_iff.2 span
          simp only [readUnsigned, digit, if_true, again, small, passed]
          rfl

theorem readExponent_takes (negative : Bool) (significand : Nat) (shift : Int) :
    Takes (readExponent negative significand shift) := by
  intro cs n rest done
  have unsigned := readUnsigned_takes negative significand shift
  by_cases plus : ∃ digits, cs = '+' :: digits
  · obtain ⟨digits, rfl⟩ := plus
    rw [readExponent_plus] at done
    obtain ⟨taken, spelled, figures, again⟩ := (unsigned false).cons '+' (by decide) done
    exact ⟨_, spelled, figures, (readExponent_plus _ _ _ taken).trans again⟩
  by_cases minus : ∃ digits, cs = '-' :: digits
  · obtain ⟨digits, rfl⟩ := minus
    rw [readExponent_minus] at done
    obtain ⟨taken, spelled, figures, again⟩ := (unsigned true).cons '-' (by decide) done
    exact ⟨_, spelled, figures, (readExponent_minus _ _ _ taken).trans again⟩
  · simp only [not_exists] at plus minus
    rw [readExponent_unsigned _ _ _ plus minus] at done
    obtain ⟨taken, rfl, figures, again⟩ := unsigned false done
    have starts (sign : Char) (none : ∀ digits, taken ++ rest ≠ sign :: digits) (digits) :
        taken ≠ sign :: digits := by
      rintro rfl
      exact none _ rfl
    refine ⟨taken, rfl, figures, ?_⟩
    rw [readExponent_unsigned _ _ _ (starts '+' plus) (starts '-' minus), again]

theorem readPower_takes (negative : Bool) (significand : Nat) (exponent : Int) :
    Takes (readPower negative significand exponent) := by
  intro cs n rest done
  have powers := readExponent_takes negative significand exponent
  unfold readPower at done
  split at done
  · obtain ⟨taken, spelled, figures, again⟩ := powers.cons 'e' (by decide) done
    exact ⟨_, spelled, figures, again⟩
  · obtain ⟨taken, spelled, figures, again⟩ := powers.cons 'E' (by decide) done
    exact ⟨_, spelled, figures, again⟩
  · obtain ⟨rfl, again⟩ := finish_ok done
    exact ⟨[], rfl, by simp, again []⟩

theorem readPower_nil (negative : Bool) (significand : Nat) (exponent : Int) :
    readPower negative significand exponent [] = finish negative significand exponent [] := by
  delta readPower
  rfl

/-- A fraction is digits, one at least, and what may follow them. Digits that do not fit
are passed over. -/
theorem readFraction_eq_ok_iff {negative : Bool} {significand longer count : Nat} {shift : Int}
    {cs rest : List Char} (appended : appendDigits significand 0 cs = (longer, count, rest))
    (result : Number × List Char) :
    readFraction negative significand shift cs = .ok result ↔
      (count = 0 → rest.takeWhile Char.isDigit ≠ []) ∧
        readPower negative longer (shift - count) (rest.dropWhile Char.isDigit) = .ok result := by
  unfold readFraction
  simp only [appended]
  cases rest with
  | nil =>
    dsimp only
    rw [List.dropWhile_nil, readPower_nil]
    by_cases zero : count = 0
    · rw [if_pos zero]
      exact ⟨nofun, fun given => absurd rfl (given.1 zero)⟩
    · rw [if_neg zero]
      exact ⟨fun done => ⟨fun is => absurd is zero, done⟩, fun given => given.2⟩
  | cons c rest =>
    dsimp only
    by_cases digit : c.isDigit = true
    · rw [if_pos digit]
      have some_digit : (c :: rest).takeWhile Char.isDigit ≠ [] := by
        rw [List.takeWhile_cons_of_pos digit]
        exact List.cons_ne_nil _ _
      exact ⟨fun done => ⟨fun _ => some_digit, done⟩, fun given => given.2⟩
    · rw [if_neg digit, List.dropWhile_cons_of_neg digit, List.takeWhile_cons_of_neg digit]
      by_cases zero : count = 0
      · rw [if_pos zero]
        exact ⟨nofun, fun given => absurd rfl (given.1 zero)⟩
      · rw [if_neg zero]
        exact ⟨fun done => ⟨fun is => absurd is zero, done⟩, fun given => given.2⟩

theorem readFraction_takes (negative : Bool) (significand : Nat) (shift : Int) :
    Takes (readFraction negative significand shift) := by
  intro cs n rest done
  obtain ⟨longer, count, left, appended⟩ :
      ∃ longer count left, appendDigits significand 0 cs = (longer, count, left) :=
    ⟨_, _, _, rfl⟩
  obtain ⟨some_digit, powered⟩ := (readFraction_eq_ok_iff appended _).1 done
  obtain ⟨digits, rfl, all, again⟩ := appendDigits_spec appended
  have powers := readPower_takes negative longer (shift - count)
  obtain ⟨taken, rfl, figures, powered, same⟩ := powers.behindDigits powered
  refine ⟨digits ++ taken, by rw [List.append_assoc], ?_, ?_⟩
  · intro c mem
    exact (List.mem_append.1 mem).elim (fun mem => isFigure_of_isDigit (all c mem)) (figures c)
  · have appended := again taken (head?_of_append rfl)
    refine (readFraction_eq_ok_iff appended _).2 ⟨fun zero => ?_, powered⟩
    rw [same]
    exact some_digit zero

theorem readRest_takes (negative : Bool) (significand : Nat) :
    Takes (readRest negative significand) := by
  intro cs n rest done
  have powers := readExponent_takes negative significand 0
  unfold readRest at done
  split at done
  · have fractions := readFraction_takes negative significand 0
    obtain ⟨taken, spelled, figures, again⟩ := fractions.cons '.' (by decide) done
    exact ⟨_, spelled, figures, again⟩
  · obtain ⟨taken, spelled, figures, again⟩ := powers.cons 'e' (by decide) done
    exact ⟨_, spelled, figures, again⟩
  · obtain ⟨taken, spelled, figures, again⟩ := powers.cons 'E' (by decide) done
    exact ⟨_, spelled, figures, again⟩
  · cases done
    exact ⟨[], rfl, by simp, rfl⟩

/-- What may follow digits of which not all fit: the power is `shift` higher. -/
def readPointOrPower (negative : Bool) (significand : Nat) (shift : Int) : Reader Number
  | '.' :: rest => readFraction negative significand shift rest
  | rest => readPower negative significand shift rest

theorem readPointOrPower_takes (negative : Bool) (significand : Nat) (shift : Int) :
    Takes (readPointOrPower negative significand shift) := by
  intro cs n rest done
  unfold readPointOrPower at done
  split at done
  · have fractions := readFraction_takes negative significand shift
    obtain ⟨taken, spelled, figures, again⟩ := fractions.cons '.' (by decide) done
    exact ⟨_, spelled, figures, again⟩
  · rename_i no_point
    obtain ⟨taken, rfl, figures, again⟩ := readPower_takes negative significand shift done
    refine ⟨taken, rfl, figures, ?_⟩
    unfold readPointOrPower
    split
    · exact absurd rfl (no_point _)
    · exact again

theorem readLong_eq (negative : Bool) (significand : Nat) (cs : List Char) :
    readLong negative significand cs =
      readPointOrPower negative significand (cs.takeWhile Char.isDigit).length
        (cs.dropWhile Char.isDigit) := rfl

def readTail (negative : Bool) (significand : Nat) : Reader Number := fun cs =>
  if cs.takeWhile Char.isDigit = [] then readRest negative significand cs
  else readLong negative significand cs

theorem takeWhile_left_eq_nil {p : Char → Bool} {taken rest : List Char}
    (none : (taken ++ rest).takeWhile p = []) : taken.takeWhile p = [] := by
  cases taken with
  | nil => rfl
  | cons c taken =>
    rw [List.cons_append, List.takeWhile_cons] at none
    split at none
    · contradiction
    · rename_i stops
      exact List.takeWhile_cons_of_neg stops

theorem readTail_takes (negative : Bool) (significand : Nat) :
    Takes (readTail negative significand) := by
  intro cs n rest done
  unfold readTail at done ⊢
  split at done
  · rename_i none
    obtain ⟨taken, rfl, figures, again⟩ := readRest_takes negative significand done
    exact ⟨taken, rfl, figures, by rw [if_pos (takeWhile_left_eq_nil none), again]⟩
  · rename_i some_digit
    rw [readLong_eq] at done
    obtain ⟨taken, rfl, figures, again, same⟩ :=
      (readPointOrPower_takes _ _ _).behindDigits done
    refine ⟨taken, rfl, figures, ?_⟩
    rw [same, if_neg some_digit, readLong_eq, same, again]

theorem read_zero (negative : Bool) {rest : List Char} {result : Number × List Char} :
    read negative ('0' :: rest) = .ok result ↔
      rest.takeWhile Char.isDigit = [] ∧ readRest negative 0 rest = .ok result := by
  cases rest with
  | nil => simp [read]
  | cons c rest =>
    by_cases digit : c.isDigit = true <;> simp [read, digit]

theorem read_digit (negative : Bool) {c : Char} (rest : List Char) (digit : c.isDigit = true)
    (nonzero : c ≠ '0') :
    read negative (c :: rest) =
      readTail negative (appendDigits (digitValue c) 0 rest).1
        (appendDigits (digitValue c) 0 rest).2.2 := by
  unfold read
  split
  · contradiction
  · rename_i zero
    exact absurd (List.cons.inj zero).1 nonzero
  · rename_i first behind _ same
    obtain ⟨rfl, rfl⟩ := List.cons.inj same
    rw [if_pos digit]
    obtain ⟨significand, count, left⟩ := appendDigits (digitValue c) 0 rest
    cases left with
    | nil => rfl
    | cons d left => by_cases next : d.isDigit = true <;> simp [readTail, next]

theorem read_takes (negative : Bool) : Takes (read negative) := by
  intro cs n rest done
  cases cs with
  | nil => contradiction
  | cons c cs =>
    by_cases zero : c = '0'
    · subst zero
      obtain ⟨none, done⟩ := (read_zero negative).1 done
      obtain ⟨taken, rfl, figures, again⟩ := readRest_takes negative 0 done
      refine ⟨'0' :: taken, rfl, by simpa using ⟨by decide, figures⟩, ?_⟩
      exact (read_zero negative).2 ⟨takeWhile_left_eq_nil none, again⟩
    · have digit : c.isDigit = true := by
        by_contra other
        simp [read, other] at done
      rw [read_digit negative cs digit zero] at done
      obtain ⟨taken, spelled, figures, again⟩ := readTail_takes negative _ done
      obtain ⟨digits, same, all, appended⟩ := @appendDigits_spec (digitValue c) 0 _ _ cs _ rfl
      rw [spelled] at same
      subst same
      refine ⟨c :: (digits ++ taken), by simp, ?_, ?_⟩
      · simp only [List.mem_cons, List.mem_append, forall_eq_or_imp]
        refine ⟨isFigure_of_isDigit digit, fun d mem => ?_⟩
        exact mem.elim (fun mem => isFigure_of_isDigit (all d mem)) (figures d)
      · rw [read_digit negative _ digit zero, appended taken (head?_of_append spelled)]
        exact again

theorem head_isDigit {negative : Bool} {cs : List Char} {result : Number × List Char}
    (done : read negative cs = .ok result) : ∃ c rest, cs = c :: rest ∧ c.isDigit = true := by
  cases cs with
  | nil => contradiction
  | cons c cs =>
    refine ⟨c, cs, rfl, ?_⟩
    by_cases zero : c = '0'
    · subst zero
      rfl
    · by_contra other
      simp [read, other] at done

def append (n : Nat) (digits : List Char) : Nat :=
  digits.foldl (fun n c => n * 10 + digitValue c) n

theorem naturalOf_cons (c : Char) (digits : List Char) :
    naturalOf (c :: digits) = append (digitValue c) digits := by
  simp [naturalOf, append]

theorem le_append (n : Nat) (digits : List Char) : n ≤ append n digits := by
  induction digits generalizing n with
  | nil => exact Nat.le_refl n
  | cons c digits ih => exact Nat.le_trans (by omega) (ih (n * 10 + digitValue c))

theorem appendDigits_of_fits {digits rest : List Char} (all : ∀ c ∈ digits, c.isDigit = true)
    (ends : ∀ c ∈ rest.head?, c.isDigit = false) {n : Nat}
    (fits : append n digits ≤ significandLimit) (count : Nat) :
    appendDigits n count (digits ++ rest) = (append n digits, count + digits.length, rest) := by
  induction digits generalizing n count with
  | nil =>
    cases rest with
    | nil => rfl
    | cons c rest =>
      rw [List.nil_append, appendDigits, if_neg (by simp [ends c rfl])]
      rfl
  | cons c digits ih =>
    have digit := all c List.mem_cons_self
    have here : n * 10 + digitValue c ≤ significandLimit := Nat.le_trans (le_append _ _) fits
    rw [List.cons_append, appendDigits, if_pos (by simp [digit, here]),
      ih (fun d mem => all d (List.mem_cons_of_mem c mem)) fits]
    simp only [append, List.foldl_cons, List.length_cons]
    congr 2
    omega

theorem read_whole {negative : Bool} {digits : List Char} {n : Number}
    (done : read negative digits = .ok (n, [])) (all : ∀ c ∈ digits, c.isDigit = true)
    (fits : naturalOf digits ≤ significandLimit) : n = whole negative (naturalOf digits) := by
  obtain ⟨c, rest, rfl, digit⟩ := head_isDigit done
  have others : ∀ d ∈ rest, d.isDigit = true := fun d mem => all d (List.mem_cons_of_mem c mem)
  by_cases zero : c = '0'
  · subst zero
    obtain ⟨none, done⟩ := (read_zero negative).1 done
    rw [List.takeWhile_eq_self_iff.2 others] at none
    subst none
    cases done
    rfl
  · rw [naturalOf_cons] at fits ⊢
    have ends : ∀ c ∈ ([] : List Char).head?, c.isDigit = false := nofun
    have appended := appendDigits_of_fits others ends fits 0
    rw [List.append_nil] at appended
    rw [read_digit negative rest digit zero, appended] at done
    cases done
    rfl

theorem not_zero_led {negative : Bool} {rest : List Char} {c : Char} {result : Number × List Char}
    (done : read negative ('0' :: c :: rest) = .ok result) : c.isDigit = false := by
  obtain ⟨none, -⟩ := (read_zero negative).1 done
  by_contra digit
  rw [List.takeWhile_cons_of_pos (by simpa using digit)] at none
  contradiction

end DescriptorCheck.Json.Numeral
