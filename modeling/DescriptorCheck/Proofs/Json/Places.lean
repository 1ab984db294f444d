import DescriptorCheck.Path.Position
import DescriptorCheck.Proofs.Document.Merging
import DescriptorCheck.Proofs.Json.Form

set_option autoImplicit false

namespace DescriptorCheck.Json

def ItemForms.forms : ItemForms → List Form
  | .last _ f _ => [f]
  | .more _ f _ rest => f :: rest.forms

def EntryForms.forms : EntryForms → List (String × Form)
  | .last _ key _ f _ => [(key.text.string, f)]
  | .more _ key _ f _ rest => (key.text.string, f) :: rest.forms

theorem ItemForms.values_eq (items : ItemForms) : items.values = items.forms.map Form.value := by
  cases items with
  | last _ f _ => rfl
  | more _ f _ rest => rw [values, forms, rest.values_eq, List.map_cons]

theorem EntryForms.entries_eq (entries : EntryForms) :
    entries.entries = entries.forms.map (Prod.map id Form.value) := by
  cases entries with
  | last _ key _ f _ => rfl
  | more _ key _ f _ rest =>
    rw [EntryForms.entries, forms, rest.entries_eq, List.map_cons]
    rfl

namespace Form

def child? : Form → Step → Option Form
  | .array items, .index i => items.forms[i]?
  | .object entries, .key k => entries.forms.reverse.lookup k
  | _, _ => none

def at? (f : Form) (p : Position) : Option Form := p.foldlM child? f

theorem child?_value (f : Form) (s : Step) : f.value.child? s = (f.child? s).map value := by
  cases f with
  | word w => cases w <;> rfl
  | number n => rfl
  | text t => rfl
  | emptyArray gap => cases s <;> rfl
  | emptyObject gap => cases s <;> rfl
  | array items =>
    cases s with
    | index i => rw [value, items.values_eq, Value.child?, List.getElem?_map, child?]
    | key k =>
      rw [value]
      rfl
  | object entries =>
    obtain ⟨kept, same, merges⟩ := Value.exists_merges entries.entries
    rw [value, same]
    cases s with
    | index i => rfl
    | key k =>
      rw [Value.child?, merges.values, entries.entries_eq, ← List.map_reverse,
        Value.lookup_map_snd, child?]

theorem at?_value (f : Form) (p : Position) : f.value.at? p = (f.at? p).map value := by
  induction p generalizing f with
  | nil => rfl
  | cons s p ih =>
    have below : f.at? (s :: p) = (f.child? s).bind (·.at? p) := rfl
    rw [Value.at?_cons, child?_value, below]
    cases f.child? s with
    | none => rfl
    | some g => exact ih g

end Form

end DescriptorCheck.Json
