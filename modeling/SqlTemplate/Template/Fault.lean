/-!
What can be wrong with the text of a template, and where. A place is given as the source from there
on, and reported by line and column.
-/

namespace SqlTemplate.Template

/-- What can be wrong with the text of a template. -/
inductive Fault where
  | openComment
  | openCharacterData
  | openInstruction
  | openTag
  | noName
  | openEndTag
  | noSpace
  | noEquals
  | unquotedValue
  | openValue
  | bracketInValue
  | duplicateAttribute (name : String)
  | openReference
  | unknownReference (entity : String)
  | noRoot
  | notTheRoot
  | textOutside
  | contentAfter
  | unclosed (element : String)
  | wrongEnd (expected found : String)
  | misplacedExpansion
  | strayMember (tag : String)
  | unknownTag (tag : String)
  | unknownAttribute (name tag : String)
  | emptyCondition (tag : String)
  | noCondition (tag : String)
  | notAPlaceholder
  deriving DecidableEq, Repr

/-- The words for a fault. -/
def Fault.message : Fault → String
  | .openComment => "unterminated comment"
  | .openCharacterData => "unterminated CDATA section"
  | .openInstruction => "unterminated processing instruction"
  | .openTag => "unterminated tag"
  | .noName => "expected a name"
  | .openEndTag => "expected '>' to close end tag"
  | .noSpace => "expected whitespace before attribute"
  | .noEquals => "expected '=' after attribute name"
  | .unquotedValue => "attribute value must be quoted"
  | .openValue => "unterminated attribute value"
  | .bracketInValue => "'<' is not allowed in attribute values"
  | .duplicateAttribute name => "duplicate attribute '" ++ name ++ "'"
  | .openReference => "unterminated entity reference"
  | .unknownReference entity => "unknown entity '&" ++ entity ++ ";'"
  | .noRoot => "template has no root element"
  | .notTheRoot => "expected the root element"
  | .textOutside => "text outside the root element"
  | .contentAfter => "content after the root element"
  | .unclosed element => "element '" ++ element ++ "' is not closed"
  | .wrongEnd expected found => "expected '</" ++ expected ++ ">' but found '</" ++ found ++ ">'"
  | .misplacedExpansion => "<a> must be a direct child of an <if> without a condition"
  | .strayMember tag => "<" ++ tag ++ "> does not follow an <if> or <elsif>"
  | .unknownTag tag => "unknown tag <" ++ tag ++ ">"
  | .unknownAttribute name tag => "unknown attribute '" ++ name ++ "' on <" ++ tag ++ ">"
  | .emptyCondition tag => "empty condition on <" ++ tag ++ ">"
  | .noCondition tag => "<" ++ tag ++ "> requires a 'c' attribute"
  | .notAPlaceholder => "<a> must contain a single :placeholder"

/-- A fault and the source from the place of the fault on. -/
structure Failure where
  fault : Fault
  here : List Char
  deriving DecidableEq, Repr

def lineAfter (cs : List Char) : Nat := cs.count '\n' + 1

/-- The column after a text, counted from 1 in characters. -/
def columnAfter (cs : List Char) : Nat := (cs.reverse.takeWhile (· != '\n')).length + 1

def Failure.before (e : Failure) (source : List Char) : List Char :=
  source.take (source.length - e.here.length)

def Failure.line (e : Failure) (source : List Char) : Nat := lineAfter (e.before source)

def Failure.column (e : Failure) (source : List Char) : Nat := columnAfter (e.before source)

end SqlTemplate.Template
