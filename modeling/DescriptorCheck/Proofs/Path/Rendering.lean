import DescriptorCheck.Path.Matching
import DescriptorCheck.Path.Position
import DescriptorCheck.Proofs.Number.Digits
import Mathlib.Data.List.Basic

set_option autoImplicit false

/-! Positions with plain keys are told apart by their path texts: points and opening brackets
stand only between steps, so the steps can be read off from either end. -/
namespace DescriptorCheck

def IsSeparator (c : Char) : Prop := c = '.' ∨ c = '['

def IsPlainKey (k : String) : Prop := k.toList ≠ [] ∧ '.' ∉ k.toList ∧ '[' ∉ k.toList

instance (k : String) : Decidable (IsPlainKey k) :=
  inferInstanceAs (Decidable (k.toList ≠ [] ∧ '.' ∉ k.toList ∧ '[' ∉ k.toList))

theorem IsPlainKey.not_isSeparator {k : String} (plain : IsPlainKey k) :
    ∀ c ∈ k.toList, ¬IsSeparator c := by
  rintro c mem (rfl | rfl)
  · exact plain.2.1 mem
  · exact plain.2.2 mem

theorem not_isSeparator_of_mem_digits {digits : List Char}
    (all : ∀ c ∈ digits, c.isDigit = true) : ∀ c ∈ digits ++ [']'], ¬IsSeparator c := by
  intro c mem separator
  rcases List.mem_append.1 mem with digit | bracket
  · rcases separator with rfl | rfl <;> exact absurd (all _ digit) (by decide)
  · rw [List.mem_singleton.1 bracket] at separator
    exact absurd separator (by unfold IsSeparator; decide)

section Lists

variable {α : Type} {P : α → Prop} {xs ys us vs : List α}

theorem append_cancel_front (hx : ∀ c ∈ xs, ¬P c) (hy : ∀ c ∈ ys, ¬P c)
    (hu : ∀ c ∈ us.head?, P c) (hv : ∀ c ∈ vs.head?, P c) (h : xs ++ us = ys ++ vs) :
    xs = ys ∧ us = vs := by
  induction xs generalizing ys with
  | nil =>
    cases ys with
    | nil => exact ⟨rfl, h⟩
    | cons c ys => exact absurd (hu c (by rw [List.nil_append] at h; simp [h])) (hy c (by simp))
  | cons c xs ih =>
    cases ys with
    | nil => exact absurd (hv c (by rw [List.nil_append] at h; simp [← h])) (hx c (by simp))
    | cons d ys =>
      obtain ⟨same, rest⟩ := List.cons.inj h
      have tails := ih (fun e he => hx e (List.mem_cons_of_mem c he))
        (fun e he => hy e (List.mem_cons_of_mem d he)) rest
      exact ⟨by rw [same, tails.1], tails.2⟩

theorem append_cancel_back (hu : ∀ c ∈ us, ¬P c) (hv : ∀ c ∈ vs, ¬P c)
    (hx : ∀ c ∈ xs.getLast?, P c) (hy : ∀ c ∈ ys.getLast?, P c) (h : xs ++ us = ys ++ vs) :
    xs = ys ∧ us = vs := by
  -- The last entry with `P` is the first one of the reversed list.
  have reversed : us.reverse ++ xs.reverse = vs.reverse ++ ys.reverse := by
    simpa using congrArg List.reverse h
  have parts := append_cancel_front (by simpa using hu) (by simpa using hv)
    (by simpa using hx) (by simpa using hy) reversed
  exact ⟨List.reverse_inj.1 parts.2, List.reverse_inj.1 parts.1⟩

end Lists

namespace Step

def IsPlain : Step → Prop
  | key k => IsPlainKey k
  | index _ => True

def joint : Step → Char
  | key _ => '.'
  | index _ => '['

def bare : Step → List Char
  | key k => k.toList
  | index i => Number.naturalDigits i ++ [']']

def lead (path : String) : Step → List Char
  | key _ => if path = "" then [] else path.toList ++ ['.']
  | index _ => path.toList ++ ['[']

theorem toList_extend (path : String) (s : Step) :
    (s.extend path).toList = s.lead path ++ s.bare := by
  cases s with
  | key k => by_cases h : path = "" <;> simp [extend, lead, bare, h]
  | index i => simp [extend, lead, bare, Number.naturalText]

theorem lead_of_ne_empty {path : String} (nonempty : path ≠ "") (s : Step) :
    s.lead path = path.toList ++ [s.joint] := by
  cases s <;> simp [lead, joint, nonempty]

theorem eq_joint_of_mem_getLast?_lead (s : Step) (path : String) :
    ∀ c ∈ (s.lead path).getLast?, c = s.joint := by
  intro c mem
  cases s with
  | key k =>
    by_cases h : path = ""
    · simp [lead, h] at mem
    · simpa [lead, joint, h, eq_comm] using mem
  | index i => simpa [lead, joint, eq_comm] using mem

theorem isSeparator_joint (s : Step) : IsSeparator s.joint := by
  cases s with
  | key k => exact .inl rfl
  | index i => exact .inr rfl

theorem not_isSeparator_of_mem_bare {s : Step} (plain : s.IsPlain) :
    ∀ c ∈ s.bare, ¬IsSeparator c := by
  cases s with
  | key k => exact plain.not_isSeparator
  | index i => exact not_isSeparator_of_mem_digits fun _ => Number.isDigit_of_mem_naturalDigits

/-- A step is read off from the back: it is what stands behind the last separator. -/
theorem lead_bare_cancel_back {s : Step} (plain : s.IsPlain) {path : String}
    {head tail : List Char} (ends : ∀ c ∈ head.getLast?, IsSeparator c)
    (bare : ∀ c ∈ tail, ¬IsSeparator c) (h : s.lead path ++ s.bare = head ++ tail) :
    s.lead path = head ∧ s.bare = tail := by
  have joint : ∀ c ∈ (s.lead path).getLast?, IsSeparator c := by
    intro c mem
    rw [s.eq_joint_of_mem_getLast?_lead path c mem]
    exact s.isSeparator_joint
  exact append_cancel_back (not_isSeparator_of_mem_bare plain) bare joint ends h

theorem bare_ne_nil {s : Step} (plain : s.IsPlain) : s.bare ≠ [] := by
  cases s with
  | key k => exact plain.1
  | index i => simp [bare]

theorem eq_of_joint_bare {s t : Step} (joints : s.joint = t.joint) (bares : s.bare = t.bare) :
    s = t := by
  cases s with
  | key k =>
    cases t with
    | key l => exact congrArg key (String.toList_inj.1 bares)
    | index j => exact absurd joints (by simp [joint])
  | index i =>
    cases t with
    | key l => exact absurd joints (by simp [joint])
    | index j =>
      exact congrArg index (Number.naturalDigits_injective (List.append_cancel_right bares))

theorem extend_ne_empty {s : Step} (plain : s.IsPlain) (path : String) : s.extend path ≠ "" := by
  intro h
  have empty : s.lead path ++ s.bare = [] := by simp [← toList_extend, h]
  exact bare_ne_nil plain (List.append_eq_nil_iff.1 empty).2

theorem extend_eq_empty_iff (s : Step) : s.extend "" = "" ↔ s = .key "" := by
  cases s with
  | key k => simp [extend]
  | index i => exact iff_of_false (extend_ne_empty (s := .index i) trivial "") nofun

theorem extend_ne_empty_of_ne_empty (s : Step) {path : String} (nonempty : path ≠ "") :
    s.extend path ≠ "" := by
  intro h
  have empty : s.lead path ++ s.bare = [] := by simp [← toList_extend, h]
  simp [lead_of_ne_empty nonempty] at empty

def chars (s : Step) : List Char := s.joint :: s.bare

end Step

namespace Position

def IsPlain (p : Position) : Prop := ∀ s ∈ p, s.IsPlain

theorem IsPlain.head {s : Step} {p : Position} (plain : IsPlain (s :: p)) : s.IsPlain :=
  plain s (List.mem_cons_self ..)

theorem IsPlain.tail {s : Step} {p : Position} (plain : IsPlain (s :: p)) : IsPlain p :=
  fun t mem => plain t (List.mem_cons_of_mem s mem)

theorem toList_foldl_extend {path : String} (nonempty : path ≠ "") (p : Position) :
    (p.foldl Step.extend path).toList = path.toList ++ p.flatMap Step.chars := by
  induction p generalizing path with
  | nil => simp
  | cons s p ih =>
    rw [List.foldl_cons, ih (s.extend_ne_empty_of_ne_empty nonempty), s.toList_extend,
      s.lead_of_ne_empty nonempty]
    simp [Step.chars]

theorem toList_path_append {p : Position} (nonempty : path p ≠ "") (q : Position) :
    (path (p ++ q)).toList = (path p).toList ++ q.flatMap Step.chars := by
  rw [path, List.foldl_append]
  exact toList_foldl_extend nonempty q

theorem toList_path_of_started {s : Step} (started : s.extend "" ≠ "") (p : Position) :
    (path (s :: p)).toList = s.lead "" ++ s.bare ++ p.flatMap Step.chars := by
  rw [← s.toList_extend]
  exact toList_foldl_extend started p

theorem toList_path_cons {s : Step} {p : Position} (plain : IsPlain (s :: p)) :
    (path (s :: p)).toList = s.lead "" ++ s.bare ++ p.flatMap Step.chars :=
  toList_path_of_started (s.extend_ne_empty plain.head "") p

theorem path_eq_empty_iff {p : Position} (plain : IsPlain p) : path p = "" ↔ p = [] := by
  cases p with
  | nil => exact iff_of_true rfl rfl
  | cons s p =>
    refine iff_of_false (fun empty => ?_) (List.cons_ne_nil s p)
    have text := toList_path_cons plain
    rw [empty, String.toList_empty, eq_comm, List.append_eq_nil_iff, List.append_eq_nil_iff] at text
    exact Step.bare_ne_nil plain.head text.1.2

theorem continues_flatMap_chars (p : Position) {rest : List Char}
    (h : Matching.continues rest = true) :
    Matching.continues (p.flatMap Step.chars ++ rest) = true := by
  cases p with
  | nil => exact h
  | cons s p => cases s <;> rfl

theorem continues_chars (p : Position) : Matching.continues (p.flatMap Step.chars) = true := by
  cases p with
  | nil => rfl
  | cons s p => cases s <;> rfl

theorem continues_cons_iff (c : Char) (rest : List Char) :
    Matching.continues (c :: rest) = true ↔ IsSeparator c := by
  simp [Matching.continues, IsSeparator]

theorem isSeparator_of_continues {rest : List Char} (h : Matching.continues rest = true) :
    ∀ c ∈ rest.head?, IsSeparator c := by
  cases rest with
  | nil => simp
  | cons c rest =>
    rintro d ⟨⟩
    exact (continues_cons_iff c rest).1 h

theorem bare_cancel {s t : Step} (hs : s.IsPlain) (ht : t.IsPlain) {x y : List Char}
    (hx : Matching.continues x = true) (hy : Matching.continues y = true)
    (h : s.bare ++ x = t.bare ++ y) : s.bare = t.bare ∧ x = y :=
  append_cancel_front (Step.not_isSeparator_of_mem_bare hs) (Step.not_isSeparator_of_mem_bare ht)
    (isSeparator_of_continues hx) (isSeparator_of_continues hy) h

theorem isPrefix_of_chars {p q : Position} (hp : IsPlain p) (hq : IsPlain q)
    {rest : List Char} (continues : Matching.continues rest = true)
    (h : q.flatMap Step.chars ++ rest = p.flatMap Step.chars) : q <+: p := by
  induction q generalizing p with
  | nil => exact List.nil_prefix
  | cons s q ih =>
    cases p with
    | nil => simp [Step.chars] at h
    | cons t p =>
      simp only [List.flatMap_cons, Step.chars, List.cons_append, List.append_assoc] at h
      obtain ⟨joints, behind⟩ := List.cons.inj h
      have parts := bare_cancel hq.head hp.head (continues_flatMap_chars q continues)
        (continues_chars p) behind
      rw [Step.eq_of_joint_bare joints parts.1]
      exact List.cons_prefix_cons.2 ⟨rfl, ih hp.tail hq.tail parts.2⟩

theorem lead_bare_cancel {s t : Step} (hs : s.IsPlain) (ht : t.IsPlain) {x y : List Char}
    (hx : Matching.continues x = true) (hy : Matching.continues y = true)
    (h : s.lead "" ++ s.bare ++ x = t.lead "" ++ t.bare ++ y) : s = t ∧ x = y := by
  -- No separator stands before a key at the front, but it does not begin like an index.
  have key_ne_index {k : String} (plain : IsPlainKey k) {u v : List Char} :
      k.toList ++ u ≠ '[' :: v := by
    intro clash
    obtain ⟨c, cs, hk⟩ := List.exists_cons_of_ne_nil plain.1
    have bracket : c = '[' := by simpa [hk] using congrArg List.head? clash
    exact plain.2.2 (by simp [hk, bracket])
  cases s with
  | key k =>
    cases t with
    | key l =>
      have parts := bare_cancel hs ht hx hy (by simpa [Step.lead] using h)
      exact ⟨Step.eq_of_joint_bare rfl parts.1, parts.2⟩
    | index j => exact absurd (by simpa [Step.lead, Step.bare] using h) (key_ne_index hs)
  | index i =>
    cases t with
    | key l => exact absurd (by simpa [Step.lead, Step.bare] using h.symm) (key_ne_index ht)
    | index j =>
      have parts := bare_cancel hs ht hx hy (by simpa [Step.lead] using h)
      exact ⟨Step.eq_of_joint_bare rfl parts.1, parts.2⟩

end Position

end DescriptorCheck
