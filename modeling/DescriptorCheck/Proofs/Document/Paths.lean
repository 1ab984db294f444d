import DescriptorCheck.Proofs.Document.Keys
import DescriptorCheck.Proofs.Path.Ambiguity
import DescriptorCheck.Proofs.Path.Preorder

set_option autoImplicit false

namespace DescriptorCheck.Document
open Value (KeysApart)

theorem path_elements (d : Document) :
    d.elements.map Element.path = d.root.positions.map Position.path :=
  Value.map_path_elementsUnder "" d.root

/-- The positions of a document that was read are unique, and so are the paths of its
elements if no key continues another one of its object. -/
theorem paths_differ_where_keys_stay_apart {format : Format} {text : String} {d : Document}
    (accepted : parse format text = .ok d) :
    d.root.positions.Nodup ∧
    d.elements.map Element.path = d.root.positions.map Position.path ∧
    (d.root.KeysApart → (∀ k, d.root.at? [.key "", .key k] = none) →
      (d.elements.map Element.path).Nodup) := by
  have distinct := distinctKeys_parse accepted
  have positions := Value.nodup_positions distinct
  refine ⟨positions, d.path_elements, fun apart closed => ?_⟩
  rw [path_elements]
  apply positions.map_on
  intro p hp q hq same
  apply Value.path_injective apart closed _ _ same
  · exact (Value.mem_positions_iff distinct p).1 hp
  · exact (Value.mem_positions_iff distinct q).1 hq

theorem paths_differ_on_dotted_keys :
    let text := "\x7b\"a.b\": \x7b\"c.d\": null\x7d, \"a.e\": [true]\x7d"
    let root := Value.object
      [("a.b", .object [("c.d", .null)]), ("a.e", .array [.boolean true])]
    parse .json text = .ok ⟨root, some text⟩ ∧ root.KeysApart ∧
      (root.flatten.map Element.path).Nodup := by
  intro text root
  have accepted : parse .json text = .ok ⟨root, some text⟩ := by
    unfold text
    rfl
  have alike {entries : List (String × Value)} (lengths : ∀ e ∈ entries, e.1.length = 3) :
      ∀ e ∈ entries, ∀ f ∈ entries, ¬Continues f.1 e.1 := by
    intro e he f hf more
    have longer := more.length_lt
    rw [lengths e he, lengths f hf] at longer
    omega
  have apart : root.KeysApart := by
    apply Value.keysApart_object (alike (by decide))
    rw [List.forall_mem_cons, List.forall_mem_singleton]
    constructor
    · apply Value.keysApart_object (alike (by decide))
      simp [Value.keysApart_of_scalar, Value.isContainer, Value.isObject, Value.isArray]
    · apply Value.keysApart_array
      simp [Value.keysApart_of_scalar, Value.isContainer, Value.isObject, Value.isArray]
  obtain ⟨-, -, unique⟩ := paths_differ_where_keys_stay_apart accepted
  exact ⟨accepted, apart, unique apart (fun k => rfl)⟩

theorem dotted_key_shares_path :
    let text := "<p><java.home>1</java.home><java><home>1</home></java></p>"
    let root := Value.object [("java.home", .text "1"), ("java", .object [("home", .text "1")])]
    parse .xml text = .ok ⟨root, some text⟩ ∧ ¬(root.flatten.map Element.path).Nodup := by
  intro text root
  have accepted : parse .xml text = .ok ⟨root, some text⟩ := by
    unfold text
    rfl
  have paths : root.flatten.map Element.path = ["java.home", "java", "java.home"] := by rfl
  refine ⟨accepted, ?_⟩
  rw [paths]
  decide

end DescriptorCheck.Document
