import DescriptorCheck.Value.Basic

set_option autoImplicit false

namespace DescriptorCheck.Yaml

inductive Datum where
  | null
  | boolean (b : Bool)
  | integer (i : Int)
  | float (x : Number.Binary64)
  | text (s : String)
  | sequence (items : List Datum)
  | mapping (entries : List (Datum × Datum))
  | tagged (name : String) (content : Datum)

namespace Datum

/-- Equality of floats as keys: a value that is no number equals itself. -/
def sameFloat (x y : Number.Binary64) : Bool := x.equal y || (x == .nan && y == .nan)

/-- Names of tags are the same with and without an exclamation mark in front. -/
def tagKey (name : String) : List Char :=
  match name.toList with
  | '!' :: c :: rest => c :: rest
  | cs => cs

mutual

def same : Datum → Datum → Bool
  | null, null => true
  | boolean b, boolean c => b == c
  | integer i, integer j => i == j
  | float x, float y => sameFloat x y
  | text s, text t => s == t
  | sequence items, sequence others => sameItems items others
  | mapping entries, mapping others =>
    entries.length == others.length && sameEntries entries others
  | tagged name content, tagged other d => tagKey name == tagKey other && content.same d
  | _, _ => false

def sameItems : List Datum → List Datum → Bool
  | [], [] => true
  | d :: rest, e :: others => d.same e && sameItems rest others
  | _, _ => false

def sameEntries : List (Datum × Datum) → List (Datum × Datum) → Bool
  | [], _ => true
  | (key, d) :: rest, others =>
    others.any (fun other => key.same other.1 && d.same other.2) && sameEntries rest others

end

def keysDiffer : List (Datum × Datum) → Bool
  | [] => true
  | (key, _) :: rest => !rest.any (fun entry => key.same entry.1) && keysDiffer rest

mutual

/-- The value of a document. Tags are dropped, keys become text, and of entries whose
keys become the same text the last one stays. -/
def toValue : Datum → Value
  | null => .null
  | boolean b => .boolean b
  | integer i => .number (.ofInt i)
  | float x => .number (.float x)
  | text s => .text s
  | sequence items => .array (valuesOf items)
  | mapping entries => .ofEntries (entriesOf entries)
  | tagged _ content => content.toValue

def valuesOf : List Datum → List Value
  | [] => []
  | d :: rest => d.toValue :: valuesOf rest

def entriesOf : List (Datum × Datum) → List (String × Value)
  | [] => []
  | (key, d) :: rest => (key.toValue.display, d.toValue) :: entriesOf rest

end

theorem length_valuesOf (items : List Datum) : (valuesOf items).length = items.length := by
  induction items with
  | nil => rfl
  | cons d rest ih => simp [valuesOf, ih]

theorem length_entriesOf (entries : List (Datum × Datum)) :
    (entriesOf entries).length = entries.length := by
  induction entries with
  | nil => rfl
  | cons entry rest ih => simp [entriesOf, ih]

end Datum

end DescriptorCheck.Yaml
