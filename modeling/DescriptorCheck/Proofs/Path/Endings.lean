import DescriptorCheck.Check.Build
import DescriptorCheck.Proofs.Files.Names
import DescriptorCheck.Proofs.Path.Rendering
import Mathlib.Data.List.TakeWhile

set_option autoImplicit false

namespace DescriptorCheck

namespace Position

theorem IsPlain.front {p q : Position} (plain : (p ++ q).IsPlain) : p.IsPlain :=
  fun s mem => plain s (List.mem_append_left q mem)

theorem IsPlain.last {p : Position} {s : Step} (plain : (p ++ [s]).IsPlain) : s.IsPlain :=
  plain s (by simp)

theorem toList_path_concat (p : Position) (s : Step) :
    (path (p ++ [s])).toList = s.lead (path p) ++ s.bare := by
  rw [path_append_singleton, s.toList_extend]

/-- A path text ends in a point and a key if the position ends in the key, below another. -/
theorem toList_path_eq_append_key_iff {p : Position} (plain : p.IsPlain) {k : String}
    (hk : IsPlainKey k) (text : List Char) :
    (path p).toList = text ++ '.' :: k.toList ↔
      ∃ front, p = front ++ [.key k] ∧ front ≠ [] ∧ (path front).toList = text := by
  constructor
  · intro whole
    rcases List.eq_nil_or_concat p with rfl | ⟨front, s, rfl⟩
    · exact absurd whole (by simp [path])
    rw [List.concat_eq_append] at plain whole ⊢
    have cut : s.lead (path front) ++ s.bare = (text ++ ['.']) ++ k.toList := by
      rw [← toList_path_concat, whole, List.append_assoc]
      rfl
    obtain ⟨before, behind⟩ := Step.lead_bare_cancel_back plain.last
      (by simp [IsSeparator]) hk.not_isSeparator cut
    have point := s.eq_joint_of_mem_getLast?_lead (path front) '.' (by simp [before])
    obtain rfl : s = .key k := Step.eq_of_joint_bare point.symm behind
    have below : path front ≠ "" := by
      intro empty
      rw [Step.lead, if_pos empty] at before
      simp at before
    rw [Step.lead, if_neg below] at before
    refine ⟨front, rfl, ?_, List.append_cancel_right before⟩
    rintro rfl
    exact below rfl
  · rintro ⟨front, rfl, nonempty, rfl⟩
    rw [toList_path_append (mt (path_eq_empty_iff plain.front).1 nonempty)]
    simp [Step.chars, Step.joint, Step.bare]

theorem getLast?_split_path_iff {p : Position} (plain : p.IsPlain) {k : String}
    (hk : IsPlainKey k) :
    (Text.split '.' (path p)).getLast? = some k ↔ p.getLast? = some (.key k) := by
  rcases List.eq_nil_or_concat p with rfl | ⟨front, s, rfl⟩
  · refine iff_of_false (fun same => hk.1 ?_) (by simp)
    obtain rfl : "" = k := by simpa [path, Text.split, Text.splitChars] using same
    rfl
  rw [List.concat_eq_append] at plain ⊢
  rw [List.getLast?_concat, Option.some.injEq, Text.split, toList_path_concat]
  have bare : '.' ∉ s.bare := fun mem =>
    Step.not_isSeparator_of_mem_bare plain.last '.' mem (.inl rfl)
  cases s with
  | key l =>
    change '.' ∉ l.toList at bare
    have pieces : ∃ above, Text.splitChars '.' (Step.lead (path front) (.key l) ++ l.toList) =
        above ++ [l.toList] := by
      by_cases top : path front = ""
      · exact ⟨[], by simpa [Step.lead, top] using Text.splitChars_of_not_mem bare⟩
      · refine ⟨Text.splitChars '.' (path front).toList, ?_⟩
        rw [Step.lead_of_ne_empty top, Step.joint, List.append_assoc, List.singleton_append,
          Text.splitChars_append_separator, Text.splitChars_of_not_mem bare]
    obtain ⟨above, split⟩ := pieces
    rw [Step.bare, split]
    simp
  | index i =>
    have whole : '.' ∉ '[' :: (Step.index i).bare := by simp [bare]
    obtain ⟨above, last, -, split⟩ := Text.exists_splitChars_append '.' (path front).toList
    rw [Step.lead, List.append_assoc, List.singleton_append, split _ whole]
    refine iff_of_false (fun same => hk.2.2 ?_) (by simp)
    obtain rfl : String.ofList (last ++ '[' :: (Step.index i).bare) = k := by simpa using same
    simp

end Position

namespace Build

/-- Digits in brackets are taken off, and so are brackets with nothing between them. -/
theorem stripIndexChars?_brackets (path : List Char) {digits : List Char}
    (all : ∀ c ∈ digits, c.isDigit = true) :
    stripIndexChars? (path ++ ['['] ++ (digits ++ [']'])) = some path := by
  have turned : (path ++ ['['] ++ (digits ++ [']'])).reverse =
      ']' :: (digits.reverse ++ '[' :: path.reverse) := by
    simp
  have reversed : ∀ c ∈ digits.reverse, c.isDigit = true :=
    fun c mem => all c (List.mem_reverse.1 mem)
  have behind :=
    Text.dropWhile_append_cons reversed (show '['.isDigit = false from rfl) path.reverse
  simp only [stripIndexChars?, turned, behind, List.reverse_reverse]

theorem stripIndexChars?_index (path : List Char) (i : Nat) :
    stripIndexChars? (path ++ ['['] ++ (Step.index i).bare) = some path :=
  stripIndexChars?_brackets path fun _ => Number.isDigit_of_mem_naturalDigits

theorem eq_or_exists_of_stripIndexChars? {path head : List Char}
    (stripped : stripIndexChars? path = some head) :
    head = path ∨ ∃ digits, (∀ c ∈ digits, c.isDigit = true) ∧
      path = head ++ ['['] ++ (digits ++ [']']) := by
  unfold stripIndexChars? at stripped
  split at stripped
  · rename_i rest turned
    split at stripped
    · rename_i front behind
      cases stripped
      refine .inr ⟨(rest.takeWhile Char.isDigit).reverse, ?_, ?_⟩
      · intro c mem
        exact List.mem_takeWhile_imp (List.mem_reverse.1 mem)
      · have cut : rest = rest.takeWhile Char.isDigit ++ '[' :: front := by
          rw [← behind, List.takeWhile_append_dropWhile]
        rw [← List.reverse_reverse path, turned, List.reverse_cons]
        conv => lhs; rw [cut]
        simp
    · cases stripped
  · exact .inl (Option.some.inj stripped).symm

theorem stripIndex?_path_index (front : Position) (i : Nat) :
    stripIndex? (Position.path (front ++ [.index i])) = some (Position.path front) := by
  rw [stripIndex?, Position.toList_path_concat, Step.lead, stripIndexChars?_index, Option.map_some,
    String.ofList_toList]

theorem stripIndex?_path_key (front : Position) {k : String} (nonempty : k.toList ≠ [])
    (open_ : k.toList.getLast? ≠ some ']') :
    stripIndex? (Position.path (front ++ [.key k])) = some (Position.path (front ++ [.key k])) := by
  have last : (Position.path (front ++ [.key k])).toList.getLast? ≠ some ']' := by
    rw [Position.toList_path_concat, Step.bare, List.getLast?_append_of_ne_nil _ nonempty]
    exact open_
  rw [stripIndex?, stripIndexChars?_of_not_bracket last, Option.map_some, String.ofList_toList]

theorem exists_front_of_stripIndex?_path {p : Position} (plain : p.IsPlain) {entry : String}
    (stripped : stripIndex? p.path = some entry) :
    ∃ front : Position, front.path = entry ∧ (p = front ∨ ∃ i, p = front ++ [.index i]) := by
  obtain ⟨head, taken, rfl⟩ := Option.map_eq_some_iff.1 stripped
  rcases eq_or_exists_of_stripIndexChars? taken with rfl | ⟨digits, all, whole⟩
  · exact ⟨p, (String.ofList_toList ..).symm, .inl rfl⟩
  · rcases List.eq_nil_or_concat p with rfl | ⟨front, s, rfl⟩
    · simp [Position.path] at whole
    rw [List.concat_eq_append] at plain whole ⊢
    rw [Position.toList_path_concat] at whole
    obtain ⟨before, -⟩ := Step.lead_bare_cancel_back plain.last (by simp [IsSeparator])
      (not_isSeparator_of_mem_digits all) whole
    have bracket := s.eq_joint_of_mem_getLast?_lead (Position.path front) '[' (by simp [before])
    cases s with
    | key k => exact absurd bracket (by simp [Step.joint])
    | index i =>
      rw [Step.lead] at before
      refine ⟨front, ?_, .inr ⟨i, rfl⟩⟩
      rw [← List.append_cancel_right before, String.ofList_toList]

/-- The position lies where a plugin has its executions. -/
def IsExecutionOf (plugin p : Position) : Prop :=
  p = plugin ++ [.key "executions", .key "execution"] ∨
    ∃ i, p = plugin ++ [.key "executions", .key "execution", .index i]

theorem IsExecutionOf.plain {plugin p : Position} (above : IsExecutionOf plugin p)
    (plain : p.IsPlain) : plugin.IsPlain := by
  rcases above with rfl | ⟨i, rfl⟩
  · exact plain.front
  · exact plain.front

theorem stripEnding?_path_iff {p : Position} (plain : p.IsPlain) (owner : String) :
    Text.stripEnding? executionsEnding p.path = some owner ↔
      ∃ plugin : Position, plugin ≠ [] ∧ plugin.path = owner ∧
        p = plugin ++ [.key "executions", .key "execution"] := by
  have ending : executionsEnding.toList = '.' :: "executions".toList ++ '.' :: "execution".toList :=
    by decide
  rw [Text.stripEnding?, Option.map_eq_some_iff]
  constructor
  · rintro ⟨head, cut, rfl⟩
    have whole := List.isSuffixOf?_eq_some_iff_append_eq.1 cut
    rw [ending, ← List.append_assoc] at whole
    obtain ⟨front, rfl, -, inner⟩ :=
      (Position.toList_path_eq_append_key_iff plain (by decide) _).1 whole.symm
    obtain ⟨plugin, rfl, below, rfl⟩ :=
      (Position.toList_path_eq_append_key_iff plain.front (by decide) _).1 inner
    exact ⟨plugin, below, (String.ofList_toList ..).symm, by simp⟩
  · rintro ⟨plugin, below, rfl, rfl⟩
    have nonempty := mt (Position.path_eq_empty_iff plain.front).1 below
    have text : (Position.path (plugin ++ [.key "executions", .key "execution"])).toList =
        (Position.path plugin).toList ++ executionsEnding.toList := by
      rw [Position.toList_path_append nonempty, ending]
      rfl
    refine ⟨(Position.path plugin).toList, ?_, String.ofList_toList ..⟩
    exact List.isSuffixOf?_eq_some_iff_append_eq.2 text.symm

theorem executionOwner?_path_iff {p : Position} (plain : p.IsPlain) (owner : String) :
    executionOwner? p.path = some owner ↔
      ∃ plugin : Position, plugin ≠ [] ∧ plugin.path = owner ∧ IsExecutionOf plugin p := by
  rw [executionOwner?, Option.bind_eq_some_iff]
  constructor
  · rintro ⟨entry, stripped, cut⟩
    obtain ⟨front, rfl, rfl | ⟨i, rfl⟩⟩ := exists_front_of_stripIndex?_path plain stripped
    · obtain ⟨plugin, below, rfl, rfl⟩ := (stripEnding?_path_iff plain owner).1 cut
      exact ⟨plugin, below, rfl, .inl rfl⟩
    · obtain ⟨plugin, below, rfl, rfl⟩ := (stripEnding?_path_iff plain.front owner).1 cut
      exact ⟨plugin, below, rfl, .inr ⟨i, by simp⟩⟩
  · rintro ⟨plugin, below, rfl, rfl | ⟨i, rfl⟩⟩
    · refine ⟨_, ?_, (stripEnding?_path_iff plain _).2 ⟨plugin, below, rfl, rfl⟩⟩
      have stripped := stripIndex?_path_key (plugin ++ [.key "executions"]) (k := "execution")
        (by decide) (by decide)
      simpa using stripped
    · have whole : plugin ++ [.key "executions", .key "execution", .index i] =
          (plugin ++ [.key "executions", .key "execution"]) ++ [.index i] := by simp
      rw [whole] at plain ⊢
      exact ⟨_, stripIndex?_path_index _ i,
        (stripEnding?_path_iff plain.front _).2 ⟨plugin, below, rfl, rfl⟩⟩

def IsDependencyPlace (p : Position) : Prop :=
  ∃ front, p = front ++ [.key dependencyKey] ∨ ∃ i, p = front ++ [.key dependencyKey, .index i]

theorem isDependencyPath_path_iff {p : Position} (plain : p.IsPlain) :
    isDependencyPath p.path = true ↔ IsDependencyPlace p := by
  have key : IsPlainKey dependencyKey := by decide
  have last {entry : Position} (plain : entry.IsPlain) :
      (Text.split '.' entry.path).getLast? == some dependencyKey ↔
        ∃ front, entry = front ++ [.key dependencyKey] := by
    rw [beq_iff_eq, Position.getLast?_split_path_iff plain key, List.getLast?_eq_some_iff]
  unfold isDependencyPath
  constructor
  · intro found
    cases stripped : stripIndex? p.path with
    | none => simp [stripped] at found
    | some entry =>
      rw [stripped] at found
      obtain ⟨front, rfl, rfl | ⟨i, rfl⟩⟩ := exists_front_of_stripIndex?_path plain stripped
      · obtain ⟨above, rfl⟩ := (last plain).1 found
        exact ⟨above, .inl rfl⟩
      · obtain ⟨above, rfl⟩ := (last plain.front).1 found
        exact ⟨above, .inr ⟨i, by simp⟩⟩
  · rintro ⟨front, rfl | ⟨i, rfl⟩⟩
    · rw [stripIndex?_path_key front (by decide) (by decide)]
      exact (last plain).2 ⟨front, rfl⟩
    · have whole : front ++ [.key dependencyKey, .index i] =
          (front ++ [.key dependencyKey]) ++ [.index i] := by simp
      rw [whole] at plain ⊢
      rw [stripIndex?_path_index]
      exact (last plain.front).2 ⟨front, rfl⟩

end Build

end DescriptorCheck
