import DescriptorCheck.Yaml.Tag

set_option autoImplicit false

namespace DescriptorCheck.Yaml

inductive Token where
  | version (major minor : Nat)
  | handle (name : String) (meaning : Tag)
  | documentStart
  | documentEnd
  | blockSequenceStart
  | blockMappingStart
  | blockEnd
  | flowSequenceStart
  | flowSequenceEnd
  | flowMappingStart
  | flowMappingEnd
  | blockEntry
  | flowEntry
  | key
  | value
  | reference (name : String)
  | anchor (name : String)
  | tag (name : TagName)
  | scalar (text : String) (plain : Bool)
deriving DecidableEq

end DescriptorCheck.Yaml
