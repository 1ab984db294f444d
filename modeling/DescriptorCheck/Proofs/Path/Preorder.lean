import DescriptorCheck.Proofs.Path.Children
import Mathlib.Data.List.NodupEquivFin

set_option autoImplicit false

namespace DescriptorCheck.Value

/-- A position comes before those below it, and before those that leave a value on
their common way by a later child. -/
inductive Precedes : Value → Position → Position → Prop
  | above {v : Value} {s : Step} {p : Position} : Precedes v [] (s :: p)
  | within {v c : Value} {s : Step} {p q : Position} :
      v.child? s = some c → Precedes c p q → Precedes v (s :: p) (s :: q)
  | beside {v : Value} {s t : Step} {p q : Position} :
      [s, t].Sublist (v.children.map Prod.fst) → Precedes v (s :: p) (t :: q)

theorem not_sublist_swap {α : Type} [DecidableEq α] {xs : List α} (nodup : xs.Nodup) {a b : α}
    (h : [a, b].Sublist xs) : ¬[b, a].Sublist xs := by
  have ascending : xs.Pairwise fun a b => xs.idxOf a < xs.idxOf b := by
    rw [List.pairwise_iff_getElem]
    intro i j hi hj lt
    rwa [nodup.idxOf_getElem, nodup.idxOf_getElem]
  intro swapped
  have := List.pairwise_iff_forall_sublist.1 ascending h
  have := List.pairwise_iff_forall_sublist.1 ascending swapped
  omega

theorem exists_children_of_child? {v c : Value} {s : Step} (found : v.child? s = some c) :
    ∃ front back, v.children = front ++ (s, c) :: back := by
  rw [child?_eq_lookup] at found
  obtain ⟨front, back, whole, -⟩ := List.lookup_eq_some_iff.1 found
  exact ⟨front, back, whole⟩

theorem mem_children_of_child? {v c : Value} {s : Step} (found : v.child? s = some c) :
    (s, c) ∈ v.children := by
  obtain ⟨front, back, whole⟩ := exists_children_of_child? found
  simp [whole]

theorem DistinctKeys.child?_of_mem {v c : Value} {s : Step} (distinct : v.DistinctKeys)
    (mem : (s, c) ∈ v.children) : v.child? s = some c := by
  rw [child?_eq_lookup]
  exact lookup_eq_of_mem distinct.nodup_steps mem

theorem DistinctKeys.of_at? {v c : Value} {p : Position} (distinct : v.DistinctKeys)
    (found : v.at? p = some c) : c.DistinctKeys := by
  induction p generalizing v with
  | nil =>
    cases found
    exact distinct
  | cons s p ih =>
    rw [at?_cons, Option.bind_eq_some_iff] at found
    obtain ⟨d, child, found⟩ := found
    exact ih (distinct.child (mem_children_of_child? child)) found

theorem Precedes.asymm {v : Value} {p q : Position} (distinct : v.DistinctKeys)
    (before : v.Precedes p q) : ¬v.Precedes q p := by
  induction before with
  | above => exact nofun
  | within found _ ih =>
    have mem := mem_children_of_child? found
    intro back
    cases back with
    | within found' below =>
      cases Option.some.inj (found.symm.trans found')
      exact ih (distinct.child mem) below
    | beside twice => exact not_sublist_swap distinct.nodup_steps twice twice
  | beside earlier =>
    intro back
    cases back with
    | within => exact not_sublist_swap distinct.nodup_steps earlier earlier
    | beside later => exact not_sublist_swap distinct.nodup_steps earlier later

theorem ne_nil_of_mem_branch {child : Step × Value} {p : Position} (mem : p ∈ branch child) :
    ∃ q, p = child.1 :: q := by
  rcases List.mem_cons.1 mem with rfl | below
  · exact ⟨[], rfl⟩
  · obtain ⟨q, -, rfl⟩ := List.mem_map.1 below
    exact ⟨q, rfl⟩

theorem exists_cons_of_mem_positions {v : Value} {p : Position} (mem : p ∈ v.positions) :
    ∃ s q, p = s :: q := by
  rw [positions_eq_flatMap] at mem
  obtain ⟨child, -, here⟩ := List.mem_flatMap.1 mem
  exact ⟨child.1, ne_nil_of_mem_branch here⟩

theorem pairwise_precedes_positions {v : Value} (distinct : v.DistinctKeys) :
    v.positions.Pairwise v.Precedes := by
  induction v using induction_on_children with
  | step v ih =>
    rw [positions_eq_flatMap, List.pairwise_flatMap]
    constructor
    · rintro ⟨s, c⟩ mem
      have found := distinct.child?_of_mem mem
      have below := ih s c mem (distinct.child mem)
      refine List.pairwise_cons.2 ⟨?_, List.pairwise_map.2 (below.imp (.within found))⟩
      intro p here
      obtain ⟨q, held, rfl⟩ := List.mem_map.1 here
      obtain ⟨t, r, rfl⟩ := exists_cons_of_mem_positions held
      exact .within found .above
    · have earlier : v.children.Pairwise fun a b =>
          [a.1, b.1].Sublist (v.children.map Prod.fst) :=
        List.pairwise_map.1 (List.pairwise_iff_forall_sublist.2 id)
      refine earlier.imp fun {a b} sublist p hp q hq => ?_
      obtain ⟨p, rfl⟩ := ne_nil_of_mem_branch hp
      obtain ⟨q, rfl⟩ := ne_nil_of_mem_branch hq
      exact .beside sublist

theorem nodup_positions {v : Value} (distinct : v.DistinctKeys) : v.positions.Nodup :=
  (pairwise_precedes_positions distinct).imp fun before same =>
    (same ▸ before).asymm distinct (same ▸ before)

theorem exists_block {v c : Value} {s : Step} {p : Position}
    (found : v.at? (s :: p) = some c) : ∃ before after,
      v.positions = before ++ ([] :: c.positions).map ((s :: p) ++ ·) ++ after := by
  induction p generalizing v s with
  | nil =>
    rw [at?_cons, Option.bind_eq_some_iff] at found
    obtain ⟨d, child, same⟩ := found
    cases same
    obtain ⟨front, back, whole⟩ := exists_children_of_child? child
    refine ⟨front.flatMap branch, back.flatMap branch, ?_⟩
    simp [positions_eq_flatMap v, whole, branch]
  | cons t p ih =>
    rw [at?_cons, Option.bind_eq_some_iff] at found
    obtain ⟨d, child, found⟩ := found
    obtain ⟨before, after, block⟩ := ih found
    obtain ⟨front, back, whole⟩ := exists_children_of_child? child
    refine ⟨front.flatMap branch ++ [s] :: before.map (s :: ·),
      after.map (s :: ·) ++ back.flatMap branch, ?_⟩
    simp [positions_eq_flatMap v, whole, branch, block]

theorem mem_positions_iff {v : Value} (distinct : v.DistinctKeys) (p : Position) :
    p ∈ v.positions ↔ p ≠ [] ∧ (v.at? p).isSome = true := by
  constructor
  · intro mem
    obtain ⟨s, q, rfl⟩ := exists_cons_of_mem_positions mem
    have value : v.at? (s :: q) ∈ (v.elementsUnder "").map fun e => some e.value := by
      rw [← map_at?_positions "" v distinct]
      exact List.mem_map_of_mem mem
    obtain ⟨e, -, same⟩ := List.mem_map.1 value
    exact ⟨List.cons_ne_nil s q, by rw [← same]; rfl⟩
  · rintro ⟨nonempty, valid⟩
    obtain ⟨c, found⟩ := Option.isSome_iff_exists.1 valid
    cases p with
    | nil => exact absurd rfl nonempty
    | cons s q =>
      obtain ⟨before, after, block⟩ := exists_block found
      simp [block]

end DescriptorCheck.Value
