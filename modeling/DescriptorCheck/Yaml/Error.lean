set_option autoImplicit false

namespace DescriptorCheck.Yaml

inductive Error where
  | forbiddenCharacter (c : Char)
  | tabInIndentation
  | strayCharacter (c : Char)
  | strayEntry
  | strayKey
  | strayValue
  | missingColon
  | strayColon
  | unclosedQuote
  | markInQuote
  | unknownEscape
  | invalidHeader
  | invalidName
  | invalidTag
  | invalidDirective
  | unsupportedVersion (major minor : Nat)
  | repeatedDirective
  | unknownHandle (handle : String)
  | unexpectedToken
  | severalDocuments
  | unknownAnchor (name : String)
  | nestingLimit
  | aliasLimit
  | repeatedKey
  | invalidScalar (text : String)
  | integerTooLarge (text : String)
deriving DecidableEq

def Error.message : Error → String
  | forbiddenCharacter _ => "control characters are not allowed"
  | tabInIndentation => "found a tab character where an indentation space is expected"
  | strayCharacter _ => "found a character that cannot start any token"
  | strayEntry => "block sequence entries are not allowed in this context"
  | strayKey => "mapping keys are not allowed in this context"
  | strayValue => "mapping values are not allowed in this context"
  | missingColon => "could not find the ':' behind a key"
  | strayColon => "found an unexpected ':'"
  | unclosedQuote => "found the end of the text in a quoted scalar"
  | markInQuote => "found a document mark in a quoted scalar"
  | unknownEscape => "found an unknown escape"
  | invalidHeader => "the header of a block scalar is not valid"
  | invalidName => "the name of an anchor is not valid"
  | invalidTag => "a tag is not valid"
  | invalidDirective => "a directive is not valid"
  | unsupportedVersion major minor =>
    "documents of version " ++ toString major ++ "." ++ toString minor ++ " are not supported"
  | repeatedDirective => "a directive is given twice"
  | unknownHandle handle => "undefined tag handle '" ++ handle ++ "'"
  | unexpectedToken => "did not find the expected content"
  | severalDocuments => "more than one document"
  | unknownAnchor name => "unknown anchor '" ++ name ++ "'"
  | nestingLimit => "nesting limit exceeded"
  | aliasLimit => "repetition limit exceeded"
  | repeatedKey => "a mapping has two equal keys"
  | invalidScalar text => "'" ++ text ++ "' is not of its tag's kind"
  | integerTooLarge text => "the integer " ++ text ++ " is too large"

end DescriptorCheck.Yaml
