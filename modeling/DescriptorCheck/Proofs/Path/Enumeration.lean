import DescriptorCheck.Proofs.Path.Preorder
import DescriptorCheck.Proofs.Path.Reading

set_option autoImplicit false

namespace DescriptorCheck.Value

section Indices

variable {root : Value} {i j : Nat} (hi : i < root.positions.length)
  (hj : j < root.positions.length)

theorem getElem_mem_placed (h : i < root.flatten.length) :
    (root.positions[i], root.flatten[i]) ∈ root.placed := by
  have bound : i < root.placed.length := by
    simp [placed, hi, h]
  have here : root.placed[i] = (root.positions[i], root.flatten[i]) := List.getElem_zip
  rw [← here]
  exact List.getElem_mem bound

theorem precedes_getElem_iff (distinct : root.DistinctKeys) :
    root.Precedes root.positions[i] root.positions[j] ↔ i < j := by
  have sorted := List.pairwise_iff_getElem.1 (pairwise_precedes_positions distinct)
  constructor
  · intro before
    rcases Nat.lt_trichotomy i j with lt | rfl | gt
    · exact lt
    · exact absurd before (before.asymm distinct)
    · exact absurd before ((sorted j i hj hi gt).asymm distinct)
  · exact sorted i j hi hj

theorem isPrefix_getElem_iff (distinct : root.DistinctKeys) {c : Value}
    (found : root.at? root.positions[i] = some c) :
    root.positions[i] <+: root.positions[j] ↔ i ≤ j ∧ j ≤ i + c.nodesBelow := by
  have nodup := nodup_positions distinct
  have size : ([] :: c.positions).length = c.nodesBelow + 1 := by
    rw [List.length_cons, length_positions_eq_nodesBelow]
  obtain ⟨s, p, here⟩ := exists_cons_of_mem_positions (List.getElem_mem hi)
  rw [here] at found ⊢
  obtain ⟨before, after, block⟩ := exists_block found
  have listed : ∀ k (hk : k < ([] :: c.positions).length),
      root.positions[before.length + k]? = some ((s :: p) ++ ([] :: c.positions)[k]) := by
    intro k hk
    rw [block, List.append_assoc, List.getElem?_append_right (Nat.le_add_right ..),
      Nat.add_sub_cancel_left, List.getElem?_append_left (by simpa using hk), List.getElem?_map,
      List.getElem?_eq_getElem hk]
    rfl
  have index_eq {k l : Nat} (hk : k < root.positions.length)
      (same : root.positions[l]? = some root.positions[k]) : k = l :=
    (List.getElem?_inj hk nodup).1 ((List.getElem?_eq_getElem hk).trans same.symm)
  -- The block of the position starts at `i`, as no position is listed twice.
  have start : i = before.length := by
    have first := listed 0 (Nat.succ_pos _)
    rw [List.getElem_cons_zero, List.append_nil, ← here] at first
    exact index_eq hi first
  subst start
  constructor
  · rintro ⟨q, below⟩
    have inBlock : q ∈ [] :: c.positions := by
      cases q with
      | nil => exact List.mem_cons_self
      | cons t q =>
        have valid := ((mem_positions_iff distinct _).1 (List.getElem_mem hj)).2
        rw [← below, at?_append, found, Option.bind_some] at valid
        exact List.mem_cons_of_mem []
          ((mem_positions_iff (distinct.of_at? found) _).2 ⟨List.cons_ne_nil t q, valid⟩)
    obtain ⟨k, hk, rfl⟩ := List.getElem_of_mem inBlock
    have := index_eq hj ((listed k hk).trans (congrArg some below))
    omega
  · rintro ⟨le, within⟩
    obtain ⟨k, rfl⟩ := Nat.exists_eq_add_of_le le
    have found' := listed k (by omega)
    rw [List.getElem?_eq_getElem hj] at found'
    exact ⟨_, (Option.some.inj found').symm⟩

end Indices

def placeEquiv {root : Value} (distinct : root.DistinctKeys) :
    Fin root.flatten.length ≃ {p : Position // p ≠ [] ∧ (root.at? p).isSome = true} :=
  (finCongr (length_positions root).symm).trans <|
    ((nodup_positions distinct).getEquiv root.positions).trans <|
      Equiv.subtypeEquivRight (mem_positions_iff distinct)

/-- The hypothesis says that every object holds a key once. -/
theorem flatten_enumerates_positions (root : Value) (distinct : root.DistinctKeys) :
    root.flatten.length = root.nodesBelow ∧
    ∃ place : Fin root.flatten.length ≃ {p : Position // p ≠ [] ∧ (root.at? p).isSome = true},
      (∀ i j, root.Precedes (place i) (place j) ↔ i < j) ∧
      (∀ i, root.at? (place i) = some root.flatten[i].value) ∧
      (∀ i j : Fin root.flatten.length, (place i).1 <+: (place j).1 ↔
        i ≤ j ∧ j.1 ≤ i.1 + root.flatten[i].value.nodesBelow) ∧
      ((∀ k ∈ root.keys, IsPlainKey k) →
        (∀ i : Fin root.flatten.length, Position.ofPath? root.flatten[i].path = some (place i).1 ∧
          (Position.ofPath? root.flatten[i].path).bind root.at? = some root.flatten[i].value) ∧
        ∀ i j : Fin root.flatten.length, root.flatten[i].path = root.flatten[j].path → i = j) := by
  have length : root.positions.length = root.flatten.length := length_positions root
  have listed (i : Fin root.flatten.length) : i.1 < root.positions.length := by
    rw [length]
    exact i.2
  have held (i : Fin root.flatten.length) :
      (root.positions[i.1], root.flatten[i.1]) ∈ root.placed := getElem_mem_placed (listed i) i.2
  have value (i : Fin root.flatten.length) :
      root.at? root.positions[i.1] = some root.flatten[i.1].value :=
    at?_of_mem_placed distinct (held i)
  refine ⟨length.symm.trans (length_positions_eq_nodesBelow root), placeEquiv distinct,
    fun i j => precedes_getElem_iff (listed i) (listed j) distinct, value,
    fun i j => isPrefix_getElem_iff (listed i) (listed j) distinct (value i), fun plain => ?_⟩
  have read (i : Fin root.flatten.length) :
      Position.ofPath? root.flatten[i.1].path = some (placeEquiv distinct i).1 := by
    rw [path_of_mem_placed (held i)]
    exact Position.ofPath?_path (isPlain_of_mem_placed plain (held i))
  refine ⟨fun i => ⟨read i, ?_⟩, fun i j same => ?_⟩
  · change (Position.ofPath? root.flatten[i.1].path).bind root.at? = _
    rw [read i]
    exact value i
  · have places : some (placeEquiv distinct i).1 = some (placeEquiv distinct j).1 := by
      rw [← read i, ← read j]
      exact congrArg Position.ofPath? same
    exact (placeEquiv distinct).injective (Subtype.ext (Option.some.inj places))

/-- `{list: [true, {1]: x}], 1]: y}`, with a key that ends like an index. -/
def listDocument : Value :=
  object [("list", array [boolean true, object [("1]", text "x")]]), ("1]", text "y")]

theorem flatten_enumerates_positions_on_list :
    listDocument.DistinctKeys ∧ (∀ k ∈ listDocument.keys, IsPlainKey k) ∧
    listDocument.flatten.length = 5 ∧
    (Position.ofPath? "list[1].1]").bind listDocument.at? = some (text "x") := by
  have distinct : listDocument.DistinctKeys := by
    simp [listDocument, DistinctKeys, EntriesDistinct, ItemsDistinct]
  have plain : ∀ k ∈ listDocument.keys, IsPlainKey k := by decide
  obtain ⟨count, place, -, -, -, reading⟩ := flatten_enumerates_positions _ distinct
  exact ⟨distinct, plain, count, ((reading plain).1 ⟨3, by decide⟩).2⟩

end DescriptorCheck.Value
