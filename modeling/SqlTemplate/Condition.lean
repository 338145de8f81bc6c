import SqlTemplate.Value.Compare
/-!
Conditions: the formulas over variables that guard the branches of a template. A condition has a
value, as an operand of a comparison has, and its truth is the truth of that value. It can be
evaluated when every variable in it is known.
-/

namespace SqlTemplate

/-- A condition. -/
inductive Condition where
  | var (name : String)
  | number (x : Binary64)
  | text (s : String)
  | neg (c : Condition)
  | both (l r : Condition)
  | either (l r : Condition)
  | relates (op : RelOp) (l r : Condition)
  deriving Inhabited, DecidableEq

namespace Condition

def vars : Condition → List String
  | .var name => [name]
  | .number _ | .text _ => []
  | .neg c => vars c
  | .both l r | .either l r | .relates _ l r => vars l ++ vars r

/-- The text of a condition, with parentheses around conjunctions and disjunctions and none around
comparisons. -/
def display : Condition → String
  | .var name => "$" ++ name
  | .number x => String.ofList (Spelling.positional.write x)
  | .text s => "'" ++ s ++ "'"
  | .neg c => "not(" ++ display c ++ ")"
  | .both l r => "(" ++ display l ++ " and " ++ display r ++ ")"
  | .either l r => "(" ++ display l ++ " or " ++ display r ++ ")"
  | .relates op l r => display l ++ " " ++ op.symbol ++ " " ++ display r

def lookup? (context : Option Context) (name : String) : Option Value :=
  context.bind fun c => c.get? name

/-- The value of a condition, where a variable without a value counts as null. -/
def value (context : Option Context) : Condition → Value
  | .var name => (lookup? context name).getD .null
  | .number x => .float x
  | .text s => .text s
  | .neg c => .bool (!(value context c).truthy)
  | .both l r => .bool ((value context l).truthy && (value context r).truthy)
  | .either l r => .bool ((value context l).truthy || (value context r).truthy)
  | .relates op l r => .bool (Value.compare op (value context l) (value context r))

def truth (context : Option Context) (c : Condition) : Bool := (value context c).truthy

/-- The leftmost variable without a value. -/
def unknown? (context : Option Context) (c : Condition) : Option String :=
  c.vars.find? fun name => (lookup? context name).isNone

/-- The truth of a condition, or the leftmost variable that has no value, even where the truth does
not hang on it. -/
def evaluate (context : Option Context) (c : Condition) : Except String Bool :=
  match c.unknown? context with
  | some name => .error name
  | none => .ok (c.truth context)

end Condition

end SqlTemplate
