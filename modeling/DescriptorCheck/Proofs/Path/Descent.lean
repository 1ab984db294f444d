import DescriptorCheck.Proofs.Path.Placement

set_option autoImplicit false

namespace DescriptorCheck

namespace Matching

theorem isUnder_segment_iff (path node : String) :
    segment.isUnder path node = true ↔
      node = "" ∨ ∃ rest, path.toList = node.toList ++ rest ∧ continues rest = true := by
  simp only [isUnder, Bool.or_eq_true, beq_iff_eq]
  refine or_congr_right ?_
  cases found : List.isPrefixOf? node.toList path.toList with
  | none =>
    refine ⟨nofun, ?_⟩
    rintro ⟨rest, whole, -⟩
    have := List.isPrefixOf?_eq_some_iff_append_eq.2 whole.symm
    rw [found] at this
    exact absurd this nofun
  | some rest =>
    have whole := List.isPrefixOf?_eq_some_iff_append_eq.1 found
    refine ⟨fun h => ⟨rest, whole.symm, h⟩, ?_⟩
    rintro ⟨other, whole', h⟩
    rwa [List.append_cancel_left (whole.trans whole')]

theorem endsWithTag_segment_iff (path tag : String) :
    segment.endsWithTag path tag = true ↔
      ∃ head, path.toList = head ++ tag.toList ∧
        (head = [] ∨ head.getLast? = some '.' ∨ tag.toList.head? = some '[') := by
  simp only [endsWithTag]
  cases found : List.isSuffixOf? tag.toList path.toList with
  | none =>
    refine ⟨nofun, ?_⟩
    rintro ⟨head, whole, -⟩
    have := List.isSuffixOf?_eq_some_iff_append_eq.2 whole.symm
    rw [found] at this
    exact absurd this nofun
  | some head =>
    have whole := List.isSuffixOf?_eq_some_iff_append_eq.1 found
    simp only [Bool.or_eq_true, List.isEmpty_iff, beq_iff_eq, or_assoc]
    refine ⟨fun h => ⟨head, whole.symm, h⟩, ?_⟩
    rintro ⟨other, whole', h⟩
    rwa [List.append_cancel_right (whole.trans whole')]

theorem isUnder_path_iff {p n : Position} (hp : p.IsPlain) (hn : n.IsPlain) :
    segment.isUnder p.path n.path = true ↔ n <+: p := by
  rw [isUnder_segment_iff, Position.path_eq_empty_iff hn]
  constructor
  · rintro (rfl | ⟨rest, whole, continues⟩)
    · exact List.nil_prefix
    cases n with
    | nil => exact List.nil_prefix
    | cons s n =>
      cases p with
      | nil =>
        have empty : Position.path (s :: n) = "" := by
          simpa [Position.path] using (List.append_eq_nil_iff.1 whole.symm).1
        exact absurd ((Position.path_eq_empty_iff hn).1 empty) (List.cons_ne_nil s n)
      | cons t p =>
        rw [Position.toList_path_cons hn, Position.toList_path_cons hp,
          List.append_assoc _ _ rest] at whole
        have parts := Position.lead_bare_cancel hn.head hp.head
          (Position.continues_flatMap_chars n continues) (Position.continues_chars p) whole.symm
        exact List.cons_prefix_cons.2
          ⟨parts.1, Position.isPrefix_of_chars hp.tail hn.tail continues parts.2⟩
  · rintro ⟨r, rfl⟩
    by_cases empty : n = []
    · exact .inl empty
    · have nonempty := mt (Position.path_eq_empty_iff hn).1 empty
      exact .inr ⟨r.flatMap Step.chars,
        Position.toList_path_append nonempty r, Position.continues_chars r⟩

theorem endsWithTag_key_iff {p : Position} (plain : p.IsPlain) {k : String}
    (hk : IsPlainKey k) :
    segment.endsWithTag p.path k = true ↔ p.getLast? = some (.key k) := by
  rw [endsWithTag_segment_iff]
  rcases List.eq_nil_or_concat p with rfl | ⟨front, s, rfl⟩
  · refine iff_of_false ?_ (by simp)
    rintro ⟨head, whole, -⟩
    exact hk.1 (List.append_eq_nil_iff.1 whole.symm).2
  have hs : s.IsPlain := plain s (by simp)
  rw [List.concat_eq_append, Position.path_append_singleton, s.toList_extend,
    List.getLast?_concat, Option.some.injEq]
  constructor
  · rintro ⟨head, whole, ends⟩
    -- A plain key does not begin like an index, so only a point may stand before it.
    have point : ∀ c ∈ head.getLast?, c = '.' := by
      rcases ends with rfl | last | bracket
      · simp
      · simp [last]
      · exact absurd (List.mem_of_mem_head? bracket) hk.2.2
    have parts := Step.lead_bare_cancel_back hs (fun c mem => .inl (point c mem))
      hk.not_isSeparator whole
    cases s with
    | key l => exact congrArg Step.key (String.toList_inj.1 parts.2)
    | index i =>
      have clash := point '[' (by simp [← parts.1, Step.lead])
      exact absurd clash (by decide)
  · rintro rfl
    refine ⟨_, rfl, ?_⟩
    by_cases h : Position.path front = "" <;> simp [Step.lead, h]

theorem endsWithTag_index_iff {p : Position} (plain : p.IsPlain) (i : Nat) :
    segment.endsWithTag p.path ("[" ++ Number.naturalText i ++ "]") = true ↔
      p.getLast? = some (.index i) := by
  have tag : ("[" ++ Number.naturalText i ++ "]").toList = '[' :: (Step.index i).bare := by
    simp [Step.bare, Number.naturalText]
  rw [endsWithTag_segment_iff, tag]
  rcases List.eq_nil_or_concat p with rfl | ⟨front, s, rfl⟩
  · refine iff_of_false ?_ (by simp)
    rintro ⟨head, whole, -⟩
    exact absurd (List.append_eq_nil_iff.1 whole.symm).2 (List.cons_ne_nil _ _)
  have hs : s.IsPlain := plain s (by simp)
  rw [List.concat_eq_append, Position.path_append_singleton, s.toList_extend,
    List.getLast?_concat, Option.some.injEq]
  constructor
  · rintro ⟨head, whole, -⟩
    -- The opening bracket of the tag belongs to what stands before the bare index.
    have shifted : s.lead (Position.path front) ++ s.bare =
        (head ++ ['[']) ++ (Step.index i).bare := by
      simpa using whole
    have parts := Step.lead_bare_cancel_back hs (by simp [IsSeparator])
      (Step.not_isSeparator_of_mem_bare (s := .index i) trivial) shifted
    have joints := s.eq_joint_of_mem_getLast?_lead (Position.path front) '['
      (by simp [parts.1])
    exact Step.eq_of_joint_bare joints.symm parts.2
  · rintro rfl
    exact ⟨(Position.path front).toList, by simp [Step.lead], .inr (.inr rfl)⟩

end Matching

namespace Value

/-- No hypothesis on repeated keys is needed for the comparison; where the keys of an
object differ, the position of an element also leads to its value. -/
theorem segment_matching_is_descent (root : Value) (plain : ∀ k ∈ root.keys, IsPlainKey k) :
    root.placed.map Prod.snd = root.flatten ∧
    root.placed.map Prod.fst = root.positions ∧
    ∀ p e, (p, e) ∈ root.placed →
      (root.DistinctKeys → root.at? p = some e.value) ∧
      (∀ q n, (q, n) ∈ root.placed →
        (Matching.segment.isUnder e.path n.path = true ↔ q <+: p)) ∧
      (∀ k, IsPlainKey k →
        (Matching.segment.endsWithTag e.path k = true ↔ p.getLast? = some (.key k))) ∧
      ∀ i, Matching.segment.endsWithTag e.path ("[" ++ Number.naturalText i ++ "]") = true ↔
        p.getLast? = some (.index i) := by
  refine ⟨map_snd_placed root, map_fst_placed root, fun p e mem => ?_⟩
  have hp := isPlain_of_mem_placed plain mem
  rw [path_of_mem_placed mem]
  refine ⟨fun distinct => at?_of_mem_placed distinct mem, fun q n below => ?_,
    fun k hk => Matching.endsWithTag_key_iff hp hk, Matching.endsWithTag_index_iff hp⟩
  rw [path_of_mem_placed below]
  exact Matching.isUnder_path_iff hp (isPlain_of_mem_placed plain below)

theorem segment_matching_is_descent_on_items :
    (∀ k ∈ (object [("1]", array (List.replicate 12 null))]).keys, IsPlainKey k) ∧
      Matching.segment.isUnder "1][11]" "1]" = true ∧
      ¬Matching.segment.isUnder "1][11]" "1][1]" = true ∧
      ¬Matching.segment.endsWithTag "1][11]" "1]" = true := by
  have plain : ∀ k ∈ (object [("1]", array (List.replicate 12 null))]).keys, IsPlainKey k := by
    decide
  obtain ⟨-, -, placement⟩ := segment_matching_is_descent _ plain
  have last := placement [.key "1]", .index 11] ⟨"1][11]", null⟩
    (List.mem_of_getElem? (i := 12) rfl)
  have field := last.2.1 [.key "1]"] ⟨"1]", array (List.replicate 12 null)⟩
    (List.mem_of_getElem? (i := 0) rfl)
  have second := last.2.1 [.key "1]", .index 1] ⟨"1][1]", null⟩
    (List.mem_of_getElem? (i := 2) rfl)
  have tag := last.2.2.1 "1]" (by decide)
  exact ⟨plain, field.2 (by decide), fun h => absurd (second.1 h) (by decide),
    fun h => absurd (tag.1 h) (by decide)⟩

end Value

end DescriptorCheck
