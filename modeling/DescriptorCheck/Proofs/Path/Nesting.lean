import DescriptorCheck.Proofs.Path.Descent
import Mathlib.Order.Defs.Unbundled

set_option autoImplicit false

namespace DescriptorCheck.Matching

theorem isUnder_literal_iff (path node : String) :
    literal.isUnder path node = true ↔ node.toList <+: path.toList :=
  List.isPrefixOf_iff_prefix

theorem endsWithTag_literal_iff (path tag : String) :
    literal.endsWithTag path tag = true ↔ tag.toList <:+ path.toList :=
  List.isSuffixOf_iff_suffix

theorem isUnder_literal_of_segment {path node : String}
    (under : segment.isUnder path node = true) : literal.isUnder path node = true := by
  rw [isUnder_literal_iff]
  rcases (isUnder_segment_iff path node).1 under with rfl | ⟨rest, whole, -⟩
  · exact List.nil_prefix
  · exact ⟨rest, whole.symm⟩

theorem endsWithTag_literal_of_segment {path tag : String}
    (ends : segment.endsWithTag path tag = true) : literal.endsWithTag path tag = true := by
  rw [endsWithTag_literal_iff]
  obtain ⟨head, whole, -⟩ := (endsWithTag_segment_iff path tag).1 ends
  exact ⟨head, whole.symm⟩

theorem isPrefix_of_isUnder {m : Matching} {path node : String}
    (under : m.isUnder path node = true) : node.toList <+: path.toList := by
  cases m with
  | literal => exact (isUnder_literal_iff path node).1 under
  | segment => exact (isUnder_literal_iff path node).1 (isUnder_literal_of_segment under)

theorem continues_append {front rest : List Char} (first : continues front = true)
    (second : continues rest = true) : continues (front ++ rest) = true := by
  cases front with
  | nil => exact second
  | cons c more => exact first

theorem isUnder_trans {m : Matching} {path node outer : String}
    (inner : m.isUnder path node = true) (within : m.isUnder node outer = true) :
    m.isUnder path outer = true := by
  cases m with
  | literal =>
    rw [isUnder_literal_iff] at inner within ⊢
    exact within.trans inner
  | segment =>
    rw [isUnder_segment_iff] at within ⊢
    rcases within with empty | ⟨more, whole, next⟩
    · exact .inl empty
    rcases (isUnder_segment_iff path node).1 inner with rfl | ⟨rest, whole', next'⟩
    · -- Only the empty node is at or above the empty one.
      have outermost := (List.append_eq_nil_iff.1 whole.symm).1
      exact .inl (String.toList_inj.1 outermost)
    · refine .inr ⟨more ++ rest, ?_, continues_append next next'⟩
      rw [whole', whole, List.append_assoc]

theorem isUnder_refl (m : Matching) (path : String) : m.isUnder path path = true := by
  cases m with
  | literal => exact (isUnder_literal_iff path path).2 List.prefix_rfl
  | segment => exact (isUnder_segment_iff path path).2 (.inr ⟨[], (List.append_nil _).symm, rfl⟩)

theorem isUnder_empty (m : Matching) (path : String) : m.isUnder path "" = true := by
  cases m with
  | literal => exact (isUnder_literal_iff path "").2 List.nil_prefix
  | segment => exact (isUnder_segment_iff path "").2 (.inl rfl)

theorem isUnder_antisymm {m : Matching} {path node : String} (under : m.isUnder path node = true)
    (above : m.isUnder node path = true) : path = node := by
  have shorter := isPrefix_of_isUnder above
  have longer := isPrefix_of_isUnder under
  exact String.toList_inj.1
    (shorter.eq_of_length (Nat.le_antisymm shorter.length_le longer.length_le))

theorem continues_of_append {front rest : List Char} (both : continues (front ++ rest) = true) :
    continues front = true := by
  cases front with
  | nil => rfl
  | cons c more => exact both

/-- A beginning of a path that reaches beyond a node above the path lies below that node. -/
theorem isUnder_of_between {m : Matching} {path node outer : String}
    (under : m.isUnder path outer = true) (starts : node.toList <+: path.toList)
    (beyond : outer.toList <+: node.toList) : m.isUnder node outer = true := by
  cases m with
  | literal => exact (isUnder_literal_iff node outer).2 beyond
  | segment =>
    obtain ⟨more, whole⟩ := beyond
    obtain ⟨rest, whole'⟩ := starts
    refine (isUnder_segment_iff node outer).2 ?_
    rcases (isUnder_segment_iff path outer).1 under with empty | ⟨behind, split, next⟩
    · exact .inl empty
    · -- What follows the outer node in the path is the rest of the node and then the rest.
      have parts : more ++ rest = behind := by
        rw [← whole', ← whole, List.append_assoc] at split
        exact List.append_cancel_left split
      exact .inr ⟨more, whole.symm, continues_of_append (parts ▸ next)⟩

theorem isUnder_or_isUnder {m : Matching} {path node other : String}
    (first : m.isUnder path node = true) (second : m.isUnder path other = true) :
    m.isUnder node other = true ∨ m.isUnder other node = true := by
  have starts := isPrefix_of_isUnder first
  have starts' := isPrefix_of_isUnder second
  rcases List.prefix_or_prefix_of_prefix starts starts' with shorter | longer
  · exact .inr (isUnder_of_between first starts' shorter)
  · exact .inl (isUnder_of_between second starts longer)

/-- Paths and nodes are any texts here, also ones that end in a point or a bracket. -/
theorem scopes_nested_or_disjoint (m : Matching) :
    IsPartialOrder String (fun path node => m.isUnder path node = true) ∧
    (∀ path, m.isUnder path "" = true) ∧
    (∀ path n k, m.isUnder path n = true → m.isUnder path k = true →
      m.isUnder n k = true ∨ m.isUnder k n = true) ∧
    (∀ n k, (∀ path, m.isUnder path n = true → m.isUnder path k = true) ∨
      (∀ path, m.isUnder path k = true → m.isUnder path n = true) ∨
      ∀ path, ¬(m.isUnder path n = true ∧ m.isUnder path k = true)) ∧
    (∀ path node, segment.isUnder path node = true → literal.isUnder path node = true) ∧
    ∀ path tag, segment.endsWithTag path tag = true → literal.endsWithTag path tag = true := by
  have order : IsPartialOrder String (fun path node => m.isUnder path node = true) :=
    { refl := isUnder_refl m
      trans := fun _ _ _ => isUnder_trans
      antisymm := fun _ _ => isUnder_antisymm }
  refine ⟨order, isUnder_empty m, fun _ _ _ => isUnder_or_isUnder, fun n k => ?_,
    fun _ _ => isUnder_literal_of_segment, fun _ _ => endsWithTag_literal_of_segment⟩
  by_cases common : ∃ path, m.isUnder path n = true ∧ m.isUnder path k = true
  · obtain ⟨path, first, second⟩ := common
    rcases isUnder_or_isUnder first second with inner | outer
    · exact .inl fun _ under => isUnder_trans under inner
    · exact .inr (.inl fun _ under => isUnder_trans under outer)
  · exact .inr (.inr (not_exists.1 common))

/-- Nodes that end in a bracket and in a letter outside ASCII. -/
theorem scopes_nested_or_disjoint_on_brackets :
    segment.isUnder "é[.b" "é[" = true ∧ segment.isUnder "é[.b" "é" = true ∧
      (segment.isUnder "é[" "é" = true ∨ segment.isUnder "é" "é[" = true) ∧
      literal.isUnder "é[.b" "é[" = true ∧ literal.endsWithTag "é[.b" "b" = true := by
  obtain ⟨-, -, chain, -, under, ends⟩ := scopes_nested_or_disjoint segment
  have first : segment.isUnder "é[.b" "é[" = true := by decide
  have second : segment.isUnder "é[.b" "é" = true := by decide
  exact ⟨first, second, chain _ _ _ first second, under _ _ first, ends _ _ (by decide)⟩

end DescriptorCheck.Matching
