import DescriptorCheck.Proofs.Document.Keys
import DescriptorCheck.Proofs.Json.Reading
import DescriptorCheck.Proofs.Json.Unambiguous
import DescriptorCheck.Proofs.Yaml.Meaning

set_option autoImplicit false

namespace DescriptorCheck.Document
open Json (Blanks Script)

/-- An accepted JSON text has one form. If it is portable, YAML reads the same document
from the text, unless an object has a key twice: then YAML refuses the text. -/
theorem portable_json_is_yaml {text : String} {d : Document} (accepted : parse .json text = .ok d) :
    ∃ s : Script, (∀ t : Script, t.chars = text.toList ↔ t = s) ∧ s.form.value = d.root ∧
      (s.IsPortable →
        (s.form.KeysDiffer → parse .yaml text = .ok d) ∧
          (¬s.form.KeysDiffer → parse .yaml text = .error (.yaml .repeatedKey))) := by
  obtain ⟨read, source⟩ := parse_json_ok accepted
  obtain ⟨s, written, value, deep⟩ := Json.readAll_ok read
  have only (t : Script) : t.chars = text.toList ↔ t = s := by
    rw [← written]
    exact Script.chars_injective.eq_iff
  refine ⟨s, only, value, fun portable => ?_⟩
  obtain ⟨done, fails⟩ := Yaml.read_script portable (Nat.le_of_lt deep) written
  constructor
  · intro differ
    rw [source, ← value, parse, done differ]
    rfl
  · intro twice
    rw [parse, fails twice]
    rfl

theorem portable_json_is_yaml_on_object :
    ∃ d s, parse .json "\x7b\"a\": [null, \"b\"]\x7d" = .ok d ∧
      Script.chars s = "\x7b\"a\": [null, \"b\"]\x7d".toList ∧ s.IsPortable ∧
      parse .yaml "\x7b\"a\": [null, \"b\"]\x7d" = .ok d := by
  let none : Blanks := ⟨[], by simp⟩
  let space : Blanks := ⟨[' '], by simp [Json.isBlank]⟩
  let script : Script :=
    ⟨none, .object (.last none ⟨⟨[.bare 'a' (by decide)]⟩, none⟩ space
      (.array (.more none (.word .null) none
        (.last space (.text ⟨[.bare 'b' (by decide)]⟩) none))) none), none⟩
  have written : script.chars = "\x7b\"a\": [null, \"b\"]\x7d".toList := by rfl
  have bare {c : Char} {free} (plain : Json.isPortable c = true) :
      (Json.TextForm.mk [.bare c free]).IsPortable := by
    intro p mem
    rw [List.mem_singleton.1 mem]
    exact plain
  have portable : script.IsPortable :=
    ⟨List.not_mem_nil, ⟨⟨bare (by decide), by simp [none], by decide⟩, trivial, bare (by decide)⟩,
      fun _ => List.not_mem_nil⟩
  have differ : script.form.KeysDiffer := ⟨List.pairwise_singleton _ _, trivial, trivial⟩
  have accepted : parse .json "\x7b\"a\": [null, \"b\"]\x7d" =
      .ok ⟨script.form.value, some "\x7b\"a\": [null, \"b\"]\x7d"⟩ := by rfl
  obtain ⟨s, only, -, alike⟩ := portable_json_is_yaml accepted
  obtain rfl : script = s := (only script).1 written
  exact ⟨_, _, accepted, written, portable, (alike portable).1 differ⟩

theorem repeated_key_is_no_yaml :
    parse .json "\x7b\"a\": false, \"a\": true\x7d" =
        .ok ⟨.object [("a", .boolean true)], some "\x7b\"a\": false, \"a\": true\x7d"⟩ ∧
      parse .yaml "\x7b\"a\": false, \"a\": true\x7d" = .error (.yaml .repeatedKey) := by
  have tokens : Yaml.readTokens
      (Yaml.dropByteOrderMark "\x7b\"a\": false, \"a\": true\x7d".toList) = .ok
      [.flowMappingStart, .key, .scalar "a" false, .value, .scalar "false" true, .flowEntry,
        .key, .scalar "a" false, .value, .scalar "true" true, .flowMappingEnd] := by rfl
  have read : Yaml.read "\x7b\"a\": false, \"a\": true\x7d" = .error .repeatedKey := by
    rw [Yaml.read, Yaml.readDatum, tokens]
    rfl
  constructor
  · rfl
  · rw [parse, read]
    rfl

end DescriptorCheck.Document
