import DescriptorCheck.Document.Basic
import DescriptorCheck.Files.Tree
import DescriptorCheck.Gzip.Member

set_option autoImplicit false

namespace DescriptorCheck

inductive LoadError where
  | unreadable (path : String) (fault : FileFault)
  | unopened (fault : FileFault)
  | corrupted
  | unparsed (path : String) (e : ParseError)
  | inputNotText
  | inputUnparsed (e : ParseError)
deriving DecidableEq

namespace LoadError

def message : LoadError → String
  | unreadable path _ => "Failed to read file " ++ path
  | unopened _ => "Failed to open gzipped file"
  | corrupted => "Failed to decompress gzipped content - data may be corrupted"
  | unparsed path _ => "Failed to parse " ++ path
  | inputNotText => "Invalid UTF-8 in stdin"
  | inputUnparsed _ => "Failed to parse document from stdin"

end LoadError

namespace Document

def isPackedName (path : String) : Bool :=
  match PathName.extension? path with
  | some extension => extension.toList.map Char.toLower == ['g', 'z']
  | none => false

def unpackText (bytes : List UInt8) : Except LoadError String :=
  match (Gzip.unpack? bytes).bind Text.ofUtf8? with
  | some text => .ok text
  | none => .error .corrupted

def fileText (path : String) (content : Except FileFault (List UInt8)) :
    Except LoadError String :=
  if isPackedName path then
    match content with
    | .ok bytes => unpackText bytes
    | .error fault => .error (.unopened fault)
  else
    match content with
    | .ok bytes =>
      match Text.ofUtf8? bytes with
      | some text => .ok text
      | none => .error (.unreadable path .invalidData)
    | .error fault => .error (.unreadable path fault)

def ofFile (path : String) (content : Except FileFault (List UInt8)) :
    Except LoadError Document := do
  let text ← fileText path content
  let format := (Format.ofPath? path).getD (Format.sniff text)
  (parse format text).mapError (.unparsed path)

def ofInput (bytes : List UInt8) : Except LoadError Document := do
  let text ←
    if Gzip.isMember bytes then unpackText bytes
    else
      match Text.ofUtf8? bytes with
      | some text => .ok text
      | none => .error .inputNotText
  (parse (Format.sniff text) text).mapError .inputUnparsed

def load (files : FileTree) (path : String) : Except LoadError Document :=
  ofFile path (files.read path)

end Document

end DescriptorCheck
