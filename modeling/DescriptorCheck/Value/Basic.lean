import DescriptorCheck.Text.Affix
import DescriptorCheck.Value.Number

set_option autoImplicit false

namespace DescriptorCheck

inductive Value where
  | object (entries : List (String × Value))
  | array (items : List Value)
  | text (s : String)
  | number (n : Number)
  | boolean (b : Bool)
  | null

namespace Value

def isObject : Value → Bool
  | object _ => true
  | _ => false

def isArray : Value → Bool
  | array _ => true
  | _ => false

def isContainer (v : Value) : Bool := v.isObject || v.isArray

def isNull : Value → Bool
  | null => true
  | _ => false

def get? (key : String) : Value → Option Value
  | object entries => entries.lookup key
  | _ => none

/-- Follows the keys between the points of `dotted`, each the key of an object. -/
def getDotted? (dotted : String) (v : Value) : Option Value :=
  (Text.split '.' dotted).foldlM (fun current key => current.get? key) v

/-- The items of an array, or the one value that stands for a list of one. -/
def items : Value → List Value
  | array items => items
  | v => [v]

mutual

def display : Value → String
  | object entries => "\x7b" ++ displayEntries entries ++ "\x7d"
  | array items => "[" ++ displayItems items ++ "]"
  | text s => s
  | number n => n.display
  | boolean b => if b then "true" else "false"
  | null => "null"

def displayItems : List Value → String
  | [] => ""
  | [v] => v.display
  | v :: rest => v.display ++ ", " ++ displayItems rest

def displayEntries : List (String × Value) → String
  | [] => ""
  | [(key, v)] => key ++ "=" ++ v.display
  | (key, v) :: rest => key ++ "=" ++ v.display ++ ", " ++ displayEntries rest

end

/-- What value predicates compare with: the display text, and nothing for null. -/
def form? : Value → Option String
  | null => none
  | v => some v.display

mutual

/-- Equality that ignores the order of entries and compares floats as values. -/
def equal : Value → Value → Bool
  | object entries, object others =>
    entries.length == others.length && equalEntries entries others
  | array items, array others => equalItems items others
  | text s, text t => s == t
  | number n, number m => n.equal m
  | boolean b, boolean c => b == c
  | null, null => true
  | _, _ => false

def equalItems : List Value → List Value → Bool
  | [], [] => true
  | v :: rest, w :: others => v.equal w && equalItems rest others
  | _, _ => false

def equalEntries : List (String × Value) → List (String × Value) → Bool
  | [], _ => true
  | (key, v) :: rest, others =>
    (match others.lookup key with
      | some w => v.equal w
      | none => false)
    && equalEntries rest others

end

/-- Puts an entry: a new key comes last, a known one keeps its place. -/
def putEntry (key : String) (v : Value) : List (String × Value) → List (String × Value)
  | [] => [(key, v)]
  | (k, w) :: rest => if k = key then (k, v) :: rest else (k, w) :: putEntry key v rest

def ofEntries (entries : List (String × Value)) : Value :=
  object (entries.foldl (fun known entry => putEntry entry.1 entry.2 known) [])

@[simp] theorem display_text (s : String) : (text s).display = s := by
  simp [display]

theorem form?_eq_none_iff (v : Value) : v.form? = none ↔ v = null := by
  cases v <;> simp [form?]

theorem lookup_putEntry_self (key : String) (v : Value) (entries : List (String × Value)) :
    (putEntry key v entries).lookup key = some v := by
  induction entries with
  | nil => simp [putEntry]
  | cons entry rest ih =>
    obtain ⟨k, w⟩ := entry
    by_cases h : k = key
    · subst h
      simp [putEntry]
    · have ne : (key == k) = false := by simpa using fun e => h e.symm
      simp [putEntry, h, List.lookup_cons, ne, ih]

theorem lookup_putEntry_of_ne {key other : String} (v : Value)
    (entries : List (String × Value)) (h : other ≠ key) :
    (putEntry key v entries).lookup other = entries.lookup other := by
  induction entries with
  | nil => simp [putEntry, h]
  | cons entry rest ih =>
    obtain ⟨k, w⟩ := entry
    by_cases same : k = key
    · subst same
      have differs : (other == k) = false := by simpa using h
      simp [putEntry, List.lookup_cons, differs]
    · simp [putEntry, same, List.lookup_cons, ih]

end Value

end DescriptorCheck
