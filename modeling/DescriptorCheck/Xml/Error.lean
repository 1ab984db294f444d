import DescriptorCheck.Number.Digits
import DescriptorCheck.Text.Utf8

set_option autoImplicit false

namespace DescriptorCheck.Xml
open Number (naturalText)

inductive MarkupError where
  | unknownBang
  | unclosedInstruction
  | unclosedComment
  | unclosedDoctype
  | unclosedCData
  | unclosedTag
  | missingDoctypeName
  | unmatchedEnd (name : String)
  | mismatchedEnd (expected found : String)
deriving DecidableEq

namespace MarkupError

def message : MarkupError → String
  | unknownBang => "syntax error: unknown or missed symbol in markup"
  | unclosedInstruction =>
    "syntax error: processing instruction or xml declaration not closed: "
      ++ "`?>` not found before end of input"
  | unclosedComment => "syntax error: comment not closed: `-->` not found before end of input"
  | unclosedDoctype => "syntax error: DOCTYPE not closed: `>` not found before end of input"
  | unclosedCData => "syntax error: CDATA not closed: `]]>` not found before end of input"
  | unclosedTag => "syntax error: tag not closed: `>` not found before end of input"
  | missingDoctypeName =>
    "ill-formed document: `<!DOCTYPE>` declaration does not contain a name of a document type"
  | unmatchedEnd name =>
    "ill-formed document: close tag `</" ++ name ++ ">` does not match any open tag"
  | mismatchedEnd expected found =>
    "ill-formed document: expected `</" ++ expected ++ ">`, but `</" ++ found ++ ">` was found"

end MarkupError

inductive AttributeError where
  | expectedEquals (place : Nat)
  | expectedValue (place : Nat)
  | unquotedValue (place : Nat)
  | unclosedQuote (place : Nat) (quote : Char)
  | duplicated (place previous : Nat)
deriving DecidableEq

namespace AttributeError

def message : AttributeError → String
  | expectedEquals place =>
    "position " ++ naturalText place ++ ": attribute key must be directly followed by `=` or space"
  | expectedValue place =>
    "position " ++ naturalText place ++ ": `=` must be followed by an attribute value"
  | unquotedValue place =>
    "position " ++ naturalText place ++ ": attribute value must be enclosed in `\"` or `'`"
  | unclosedQuote place quote =>
    "position " ++ naturalText place ++ ": missing closing quote `" ++ String.ofList [quote]
      ++ "` in attribute value"
  | duplicated place previous =>
    "position " ++ naturalText place ++ ": duplicated attribute, previous declaration at position "
      ++ naturalText previous

end AttributeError

inductive ReferenceError where
  | unterminated (first last : Nat)
  | unknownEntity (first last : Nat) (name : String)
  | emptyNumber
  | invalidDigit
  | numberTooLarge
  | signedNumber
  | noCharacter (code : Nat)
  | nullCharacter
deriving DecidableEq

namespace ReferenceError

def numberMessage (reason : String) : String := "invalid character reference: " ++ reason

def message : ReferenceError → String
  | unterminated first last =>
    "Error while escaping character at range " ++ naturalText first ++ ".." ++ naturalText last
      ++ ": Cannot find ';' after '&'"
  | unknownEntity first last name =>
    "at " ++ naturalText first ++ ".." ++ naturalText last ++ ": unrecognized entity `" ++ name
      ++ "`"
  | emptyNumber => numberMessage "cannot parse integer from empty string"
  | invalidDigit => numberMessage "invalid digit found in string"
  | numberTooLarge => numberMessage "number too large to fit in target type"
  | signedNumber => numberMessage "unexpected number sign"
  | noCharacter code => numberMessage ("`" ++ naturalText code ++ "` is not a valid codepoint")
  | nullCharacter => numberMessage "0x0 character is not permitted in XML"

end ReferenceError

inductive Error where
  | inMarkup (place : Nat) (e : MarkupError)
  | inTag (e : AttributeError)
  | inText (e : ReferenceError)
  | unexpectedEnd
  | secondRoot (name : String)
  | unclosedElement (name : String)
  | noRoot
deriving DecidableEq

namespace Error

def message : Error → String
  | inMarkup place e => "error at position " ++ naturalText place ++ ": " ++ e.message
  | inTag e => e.message
  | inText e => e.message
  | unexpectedEnd => "unexpected closing tag"
  | secondRoot name => "unexpected second root element '" ++ name ++ "'"
  | unclosedElement name => "unclosed element '" ++ name ++ "'"
  | noRoot => "document has no root element"

end Error

end DescriptorCheck.Xml
