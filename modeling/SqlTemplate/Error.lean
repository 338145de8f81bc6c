import SqlTemplate.Condition.Parser
import SqlTemplate.Engine
import SqlTemplate.Template.Fault
/-!
Errors: the causes for which an operation fails, the code of each cause and its message.
-/

namespace SqlTemplate

instance decEqExcept {ε α : Type} [DecidableEq ε] [DecidableEq α] : DecidableEq (Except ε α)
  | .ok a, .ok b => decidable_of_iff (a = b) ⟨congrArg _, fun h => by cases h; rfl⟩
  | .error a, .error b => decidable_of_iff (a = b) ⟨congrArg _, fun h => by cases h; rfl⟩
  | .ok _, .error _ => .isFalse nofun
  | .error _, .ok _ => .isFalse nofun

/-- How a parameter takes its values. -/
inductive Shape where
  | scalar
  | array
  | assoc
  deriving DecidableEq, Repr

def Shape.name : Shape → String
  | .scalar => "scalar"
  | .array => "array"
  | .assoc => "associative array"

/-- What can be wrong with an argument. -/
inductive Misuse where
  | sequence
  | noValues
  | tooFew (expected got : Nat)
  | nested
  | mixed (first other : Family)
  | otherShape (declared asked : Shape)
  | otherFamily (declared asked : Family)
  | assocOutput
  | notAssoc (declared : Shape)
  | zeroCount
  | executed
  deriving DecidableEq, Repr

/-- The words for a misuse. -/
def Misuse.message : Misuse → String
  | .sequence => "use an array bind for sequences"
  | .noValues => "array bind requires at least one value"
  | .tooFew expected got => "expected " ++ toString expected ++ " values, got " ++ toString got
  | .nested => "nested sequences cannot be bound"
  | .mixed first other => "mixes " ++ first.name ++ " and " ++ other.name ++ " values"
  | .otherShape declared asked =>
    "already declared as a " ++ declared.name ++ ", cannot rebind as a " ++ asked.name
  | .otherFamily declared asked =>
    "already declared as " ++ declared.name ++ ", cannot rebind as " ++ asked.name
  | .assocOutput => "declared as an associative array; use out_assoc_array"
  | .notAssoc declared => "already declared as a " ++ declared.name
  | .zeroCount => "must be at least 1"
  | .executed => "already executed; rebind parameters before executing again"

inductive Shortage where
  | noElement
  | noCapacity
  deriving DecidableEq, Repr

def Shortage.message : Shortage → String
  | .noElement => "associative array must contain at least one element"
  | .noCapacity => "output capacity must be at least 1"

/-- Why an operation failed. -/
inductive Error where
  | syntaxFault (expression : String) (offset : Nat) (fault : Condition.Fault)
  | malformed (line column : Nat) (fault : Template.Fault)
  | unknownVariable (name : String)
  | unknownParameter (name : String)
  | unbound (name : String)
  | argument (name : String) (misuse : Misuse)
  | nullArgument (name : String)
  | outOfRange (name : String) (shortage : Shortage)
  | batch (attempted : Nat) (failures : List (Nat × Engine.Fault))
  | engine (fault : Engine.Fault)
  deriving DecidableEq, Repr

namespace Error

/-- The code of a cause. -/
def code : Error → String
  | .syntaxFault .. => "ParseError"
  | .malformed .. => "MalformedTemplate"
  | .unknownVariable _ => "UnknownVariable"
  | .unknownParameter _ => "UnknownParameter"
  | .unbound _ => "UnboundParameter"
  | .argument .. => "ArgumentError"
  | .nullArgument _ => "NullArgument"
  | .outOfRange .. => "OutOfRange"
  | .batch .. => "BatchPartialFailure"
  | .engine _ => "EngineError"

/-- The message of an error. -/
def message : Error → String
  | .syntaxFault expression offset fault =>
    "invalid expression '" ++ expression ++ "' at offset " ++ toString offset ++ ": " ++
      fault.message
  | .malformed line column fault =>
    "malformed template at " ++ toString line ++ ":" ++ toString column ++ ": " ++ fault.message
  | .unknownVariable name => "unknown variable '$" ++ name ++ "'"
  | .unknownParameter name =>
    "unknown parameter ':" ++ name ++ "' referenced in a conditional body"
  | .unbound name => "parameter ':" ++ name ++ "' is used by the statement but was never bound"
  | .argument name misuse => "invalid argument for '" ++ name ++ "': " ++ misuse.message
  | .nullArgument name => "associative array '" ++ name ++ "' cannot be null"
  | .outOfRange name shortage => "'" ++ name ++ "' is out of range: " ++ shortage.message
  | .batch attempted failures =>
    toString failures.length ++ " of " ++ toString attempted ++ " batched rows failed"
  | .engine fault => fault.message

def withCode (e : Error) : String := "[" ++ e.code ++ "] " ++ e.message

def failures? : Error → Option (List (Nat × Engine.Fault))
  | .batch _ failures => some failures
  | _ => none

end Error

namespace Condition

/-- The condition that a text writes. -/
def parse (source : String) : Except Error Condition :=
  match read source.toList with
  | .ok c => .ok c
  | .error e => .error (.syntaxFault source (e.offset source.toList) e.fault)

/-- The truth of the condition that a text writes. -/
def holds (context : Option Context) (source : String) : Except Error Bool :=
  match parse source with
  | .error e => .error e
  | .ok c =>
    match c.evaluate context with
    | .error name => .error (.unknownVariable name)
    | .ok b => .ok b

end Condition

end SqlTemplate
