import DescriptorCheck.Number.Reading
import DescriptorCheck.Yaml.Token

set_option autoImplicit false

namespace DescriptorCheck.Yaml.Directive

def readNumber : Reader Nat := fun c =>
  let (digits, c) := c.takeWhile Char.isDigit
  if digits.isEmpty || 9 < digits.length then .error .invalidDirective
  else .ok (Number.naturalOf digits, c)

def readVersion : Reader Token := fun c => do
  let (major, c) ← readNumber c
  match c.rest with
  | '.' :: _ =>
    let (minor, c) ← readNumber (c.skip 1)
    .ok (.version major minor, c)
  | _ => .error .invalidDirective

def readHandle : Reader String := fun c => do
  let ((name, closed), c) ← Tag.readHandle c
  if closed then .ok (TagName.named name, c)
  else if name.isEmpty then .ok ("!", c)
  else .error .invalidDirective

def readMeaning : Reader Token := fun c => do
  let (handle, c) ← readHandle c
  if !c.rest.head?.any isBlank then .error .invalidDirective
  else
    let (meaning, c) ← Tag.readUri true false c.skipBlanks
    if endsWord c.rest then .ok (.handle handle meaning, c) else .error .invalidDirective

/-- The directive that a percent sign starts here, and the rest of its line. -/
def read : Reader Token := fun c => do
  let (name, c) := (c.skip 1).takeWhile Tag.isNameChar
  if !endsWord c.rest then .error .invalidDirective
  else
    let (token, c) ←
      match String.ofList name with
      | "YAML" => readVersion c.skipBlanks
      | "TAG" => readMeaning c.skipBlanks
      | _ => .error .invalidDirective
    match c.endLine? with
    | some c => .ok (token, c)
    | none => .error .invalidDirective

end DescriptorCheck.Yaml.Directive
