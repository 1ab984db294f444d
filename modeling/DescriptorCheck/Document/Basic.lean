import DescriptorCheck.Document.Format
import DescriptorCheck.Json.Reader
import DescriptorCheck.Path.Element
import DescriptorCheck.Xml.Document
import DescriptorCheck.Yaml.Document

set_option autoImplicit false

namespace DescriptorCheck

structure Document where
  root : Value
  source : Option String

inductive ParseError where
  | xml (e : Xml.Error)
  | yaml (e : Yaml.Error)
  | json (e : Json.Error)
deriving DecidableEq

namespace ParseError

def format : ParseError → Format
  | .xml _ => .xml
  | .yaml _ => .yaml
  | .json _ => .json

def reason : ParseError → String
  | .xml e => e.message
  | .yaml e => e.message
  | .json e => e.message

def message (e : ParseError) : String :=
  "failed to parse " ++ e.format.name ++ " document: " ++ e.reason

end ParseError

namespace Document

def elements (d : Document) : List Element := d.root.flatten

def parse (format : Format) (text : String) : Except ParseError Document := do
  let root ←
    match format with
    | .xml => (Xml.read text).mapError .xml
    | .yaml => (Yaml.read text).mapError .yaml
    | .json => (Json.read text).mapError .json
  return ⟨root, some text⟩

theorem parse_source {format : Format} {text : String} {d : Document}
    (h : parse format text = .ok d) : d.source = some text := by
  unfold parse at h
  cases format <;> simp only [bind, Except.bind] at h <;> split at h <;>
    first
    | contradiction
    | (cases h; rfl)

end Document

end DescriptorCheck
