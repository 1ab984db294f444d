import DescriptorCheck.Yaml.Composition
import DescriptorCheck.Yaml.Node.Reader
import DescriptorCheck.Yaml.Token.Scan

set_option autoImplicit false

namespace DescriptorCheck.Yaml

def dropByteOrderMark : List Char → List Char
  | '\ufeff' :: rest => rest
  | cs => cs

def readTokens (cs : List Char) : Except Error (List Token) :=
  match cs.find? (!isAllowed ·) with
  | some c => .error (.forbiddenCharacter c)
  | none => Token.ofChars (normalizeBreaks cs)

def readDatum (text : String) : Except Error Datum := do
  let tokens ← readTokens (dropByteOrderMark text.toList)
  match ← Node.ofTokens tokens with
  | none => .ok .null
  | some root => (Datum.ofNode root Node.depthLimit root).run' 0

def read (text : String) : Except Error Value := (readDatum text).map Datum.toValue

end DescriptorCheck.Yaml
