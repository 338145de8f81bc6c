import SqlTemplate.Error
import SqlTemplate.Template.Parser
/-!
Pruning: the SQL text of a template for given values. First every placeholder in a branch and every
expansion has to be known, then each chain gives the body of its first branch whose guard holds,
and each expansion its numbered placeholders.
-/

namespace SqlTemplate.Template

def parse (source : String) : Except Error (List Node) :=
  match read source.toList with
  | .ok nodes => .ok nodes
  | .error e => .error (.malformed (e.line source.toList) (e.column source.toList) e.fault)

/-! ## The names that have to be known -/

mutual

/-- The placeholders of the texts in branches and the expansions, in the order of the template.
`inBranch` says whether the nodes themselves stand in a branch. -/
def guardedNames (inBranch : Bool) : List Node → List String
  | [] => []
  | n :: ns => nodeNames inBranch n ++ guardedNames inBranch ns

def nodeNames (inBranch : Bool) : Node → List String
  | .text s => if inBranch then Placeholder.scan s.toList else []
  | .expand name _ => [name]
  | .chain members => memberNames members

def memberNames : Members → List String
  | .nothing => []
  | .otherwise body => guardedNames true body
  | .branch _ body rest => guardedNames true body ++ memberNames rest

end

/-- Whether a name has a value or a number of repetitions. -/
def isKnown (values : Context) (repeats : Repeats) (name : String) : Bool :=
  values.contains name || repeats.contains name

def unknownName? (values : Context) (repeats : Repeats) (nodes : List Node) : Option String :=
  (guardedNames false nodes).find? fun name => !isKnown values repeats name

/-! ## Guards -/

def isGiven (values : Context) (name : String) : Bool :=
  match values.get? name with
  | some v => v.isGiven
  | none => false

/-- Whether an expansion has something to expand: its value decides, and without one the number of
its repetitions. -/
def canExpand (values : Context) (repeats : Repeats) (name : String) : Bool :=
  match values.get? name with
  | some v => v.isGiven
  | none =>
    match repeats.get? name with
    | some n => 0 < n
    | none => false

/-- Whether a node lets the guard of the body that it stands in hold; a chain always does. -/
def nodeGiven (values : Context) (repeats : Repeats) : Node → Bool
  | .text s => (Placeholder.scan s.toList).all (isGiven values)
  | .expand name _ => canExpand values repeats name
  | .chain _ => true

/-- The guard of a branch without a condition. -/
def implicitGuard (values : Context) (repeats : Repeats) (body : List Node) : Bool :=
  body.all (nodeGiven values repeats)

def guardHolds (values : Context) (repeats : Repeats) (condition : Option String)
    (body : List Node) : Except Error Bool :=
  match condition with
  | some source => Condition.holds (some values) source
  | none => .ok (implicitGuard values repeats body)

/-! ## Text -/

/-- The number of placeholders of an expansion: its repetitions, or else the length of the sequence
that is its value. -/
def expansionCount? (values : Context) (repeats : Repeats) (name : String) : Option Nat :=
  match repeats.get? name with
  | some n => some n
  | none => (values.get? name).bind fun v => v.seq?.map List.length

/-- The text of an expansion of `n` placeholders: numbered from 0, a separator between
neighbours. -/
def expanded (name sep : String) (n : Nat) : String :=
  String.ofList (Text.joined sep.toList
    ((List.range n).map fun i => ':' :: (Placeholder.numbered name i).toList))

mutual

/-- The text of nodes. -/
def render (values : Context) (repeats : Repeats) : List Node → Except Error String
  | [] => .ok ""
  | n :: ns =>
    match renderNode values repeats n with
    | .error e => .error e
    | .ok s =>
      match render values repeats ns with
      | .error e => .error e
      | .ok t => .ok (s ++ t)

/-- The text of a node. -/
def renderNode (values : Context) (repeats : Repeats) : Node → Except Error String
  | .text s => .ok s
  | .expand name sep =>
    match expansionCount? values repeats name with
    | some n => .ok (expanded name sep n)
    | none => .error (.unknownParameter name)
  | .chain members => renderMembers values repeats members

/-- The text of the first member of a chain whose guard holds; later guards are not looked at. -/
def renderMembers (values : Context) (repeats : Repeats) : Members → Except Error String
  | .nothing => .ok ""
  | .otherwise body => render values repeats body
  | .branch condition body rest =>
    match guardHolds values repeats condition body with
    | .error e => .error e
    | .ok true => render values repeats body
    | .ok false => renderMembers values repeats rest

end

/-- The text of a template's nodes, if every name that has to be known is. -/
def pruneNodes (values : Context) (repeats : Repeats) (nodes : List Node) : Except Error String :=
  match unknownName? values repeats nodes with
  | some name => .error (.unknownParameter name)
  | none => render values repeats nodes

def prune (source : String) (values : Context) (repeats : Repeats) : Except Error String :=
  match parse source with
  | .error e => .error e
  | .ok nodes => pruneNodes values repeats nodes

end SqlTemplate.Template
