import SqlTemplate.Template.Parser
/-!
Writing templates: the events of nodes, the text of events, and the rules that the nodes of a
template obey. A text is written with a reference for each character that would be read as markup.
-/

namespace SqlTemplate.Template

open Condition (isLetter)

/-! ## Text -/

def references : List (Char × List Char) :=
  [('<', ['l', 't']), ('>', ['g', 't']), ('&', ['a', 'm', 'p']), ('\x22', ['q', 'u', 'o', 't']),
    ('\x27', ['a', 'p', 'o', 's'])]

def entityWord? (c : Char) : Option (List Char) := references.lookup c

def escapedChar (special : Char → Bool) (c : Char) : List Char :=
  match special c, entityWord? c with
  | true, some word => '&' :: word ++ [';']
  | _, _ => [c]

def escaped (special : Char → Bool) (cs : List Char) : List Char :=
  cs.flatMap (escapedChar special)

inductive Quote where
  | single
  | double
  deriving DecidableEq, Repr

def Quote.char : Quote → Char
  | .single => '\x27'
  | .double => '\x22'

def specialInText (c : Char) : Bool := c == '&' || c == '<'

def specialInValue (q : Quote) (c : Char) : Bool := specialInText c || c == q.char

def isTagName : List Char → Bool
  | [] => false
  | c :: cs => (isLetter c || c == '_') && cs.all isTagChar

/-! ## Events -/

def attributeText (q : Quote) (a : String × String) : List Char :=
  ' ' :: a.1.toList ++ '=' :: q.char :: escaped (specialInValue q) a.2.toList ++ [q.char]

/-- The text of an event. -/
def Event.write (q : Quote) : Event → List Char
  | .text s => escaped specialInText s.toList
  | .start name attributes empty =>
    '<' :: name.toList ++ attributes.flatMap (attributeText q) ++
      (if empty then ['/', '>'] else ['>'])
  | .stop name => '<' :: '/' :: name.toList ++ ['>']

def conditionAttributes : Option String → List (String × String)
  | none => []
  | some c => [("c", c)]

mutual

def treeEvents : List Node → List Event
  | [] => []
  | n :: ns => nodeEvents n ++ treeEvents ns

def nodeEvents : Node → List Event
  | .text s => [.text s]
  | .expand name sep => [.start "a" [("sep", sep)] false, .text (":" ++ name), .stop "a"]
  | .chain members => memberEvents "if" members

/-- The events of the members of a chain, the first branch of which has the tag. -/
def memberEvents (tag : String) : Members → List Event
  | .nothing => []
  | .otherwise body => .start "else" [] false :: (treeEvents body ++ [.stop "else"])
  | .branch condition body rest =>
    .start tag (conditionAttributes condition) false ::
      (treeEvents body ++ .stop tag :: memberEvents "elsif" rest)

end

def documentEvents (root : String) (nodes : List Node) : List Event :=
  .start root [] false :: (treeEvents nodes ++ [.stop root])

/-- The text of a template. -/
def write (q : Quote) (root : String) (nodes : List Node) : String :=
  String.ofList ((documentEvents root nodes).flatMap (Event.write q))

/-! ## Rules for nodes -/

def isText : Node → Bool
  | .text _ => true
  | _ => false

mutual

/-- Whether nodes obey the rules for where they stand: no two neighbours are texts, an expansion has
the name of a placeholder and stands directly in a branch without a condition, and a chain has a
branch. -/
def isRegular (scope : Scope) : List Node → Bool
  | [] => true
  | n :: ns => nodeRegular scope n && !(isText n && ns.head?.any isText) && isRegular scope ns

def nodeRegular (scope : Scope) : Node → Bool
  | .text _ => true
  | .expand name _ => decide (scope = .implicitBranch) && Placeholder.isName name.toList
  | .chain members => membersRegular true members

/-- Whether the members of a chain obey the rules: the first is a branch, only the first may be
without a condition, and no condition is blank. -/
def membersRegular (first : Bool) : Members → Bool
  | .nothing => !first
  | .otherwise body => !first && isRegular .body body
  | .branch condition body rest =>
    (first || condition.isSome) && condition.all (fun c => !Text.allBlank c.toList) &&
      isRegular (if condition.isNone then .implicitBranch else .body) body &&
      membersRegular false rest

end

mutual

/-- Whether no text among nodes is empty, at any depth. -/
def textsFull : List Node → Bool
  | [] => true
  | n :: ns => nodeFull n && textsFull ns

def nodeFull : Node → Bool
  | .text s => !s.isEmpty
  | .expand _ _ => true
  | .chain members => membersFull members

def membersFull : Members → Bool
  | .nothing => true
  | .otherwise body => textsFull body
  | .branch _ body rest => textsFull body && membersFull rest

end

end SqlTemplate.Template
