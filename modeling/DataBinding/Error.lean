/-!
# Errors

What an operation can answer instead of its result, as causes; the wording of each is in
`Error.message` alone.
-/

namespace DataBinding

/-- What is wrong with a piece of markup. -/
inductive Malformed
  | unterminatedComment
  | closingBracketExpected
  | unexpectedClosingTag (tag : String)
  | tagNameExpected
  | attributeNameExpected
  | unterminatedTag
  | unterminatedAttributeValue
  | unclosedTag (tag : String)
deriving DecidableEq

/-- The wording of a markup error, without its position. -/
def Malformed.message : Malformed → String
  | unterminatedComment => "unterminated comment"
  | closingBracketExpected => "expected `>`"
  | unexpectedClosingTag tag => "unexpected closing tag `" ++ tag ++ "`"
  | tagNameExpected => "expected a tag name"
  | attributeNameExpected => "expected an attribute name"
  | unterminatedTag => "unterminated tag"
  | unterminatedAttributeValue => "unterminated attribute value"
  | unclosedTag tag => "unclosed tag `" ++ tag ++ "`"

/-- Why an operation has no result. -/
inductive Error
  /-- An attribute carries the directive marker and no known directive. -/
  | unknownDirective (name : String)
  /-- An event directive without the name of an event. -/
  | missingEvent (name : String)
  /-- A method that the context does not have. -/
  | unknownMethod (method : String)
  /-- A text node was to be compiled. -/
  | invalidRoot
  /-- An evaluation was to begin while another one was running. -/
  | reentrantEvaluation
  /-- Markup that does not parse, with the byte at which that shows. -/
  | markup (position : Nat) (cause : Malformed)
deriving DecidableEq

/-- The wording of an error. -/
def Error.message : Error → String
  | unknownDirective name => "unknown directive `" ++ name ++ "`"
  | missingEvent name =>
    "directive `" ++ name ++ "` requires an event name, e.g. `" ++ name ++ ":click`"
  | unknownMethod method => "no method named `" ++ method ++ "` is defined"
  | invalidRoot => "a text node cannot be used as a compilation root"
  | reentrantEvaluation => "an evaluation is already in progress on this thread"
  | markup position cause => "malformed markup at byte " ++ toString position ++ ": " ++ cause.message

end DataBinding
