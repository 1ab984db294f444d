import DescriptorCheck.Text.Affix
import DescriptorCheck.Text.Blank

set_option autoImplicit false

namespace DescriptorCheck

inductive Format where
  | xml
  | yaml
  | json
deriving DecidableEq

namespace Format

def name : Format → String
  | .xml => "xml"
  | .yaml => "yaml"
  | .json => "json"

/-- A letter case and one ending `.gz` of the file name make no difference. The
letters of the endings have no variants outside ASCII. -/
def ofPath? (path : String) : Option Format :=
  let lower := String.ofList (path.toList.map Char.toLower)
  let base := (Text.stripEnding? ".gz" lower).getD lower
  if Text.endsWith base ".xml" then some .xml
  else if Text.endsWith base ".yaml" || Text.endsWith base ".yml" then some .yaml
  else if Text.endsWith base ".json" then some .json
  else none

def sniff (content : String) : Format :=
  if (Text.trimStartChars content.toList).head? = some '<' then .xml else .yaml

end Format

end DescriptorCheck
