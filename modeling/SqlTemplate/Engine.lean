import SqlTemplate.Value
/-!
Engines: what executes a statement with named binds and answers with an outcome or a fault, and
what opens and ends transactions. An engine is a deterministic machine over a state of its own, so
that a run of calls is a function of the state it starts from.
-/

namespace SqlTemplate

namespace Engine

/-- The kinds of fault that an engine reports. -/
inductive FaultKind where
  | missingObject
  | invalidSyntax
  | unboundVariable
  | uniqueViolation
  | unsupported
  | other
  deriving DecidableEq, Repr

/-- The words for a kind of fault. -/
def FaultKind.message : FaultKind → String
  | .missingObject => "missing object"
  | .invalidSyntax => "invalid syntax"
  | .unboundVariable => "unbound variable"
  | .uniqueViolation => "unique violation"
  | .unsupported => "unsupported"
  | .other => "engine failure"

/-- A fault of an engine: its kind, the engine's own number for it and its own words. -/
structure Fault where
  kind : FaultKind
  code : Option Int
  words : String
  deriving DecidableEq, Repr

def Fault.message (f : Fault) : String :=
  let code := match f.code with
    | some c => " (code " ++ integerText c ++ ")"
    | none => ""
  f.kind.message ++ code ++ ": " ++ f.words

/-- Whether a parameter carries a value into a statement, out of it, or both. -/
inductive Direction where
  | input
  | output
  | both
  deriving DecidableEq, Repr

def Direction.isInput : Direction → Bool
  | .output => false
  | _ => true

def Direction.isOutput : Direction → Bool
  | .input => false
  | _ => true

/-- What a bind carries: one value, or values by number. -/
inductive Carried where
  | scalar (v : Value)
  | assoc (entries : Dict UInt32 Value)

/-- A named value that accompanies a statement. -/
structure Bind where
  name : String
  direction : Direction
  carried : Carried
  capacity : Option Nat

structure Statement where
  sql : String
  binds : List Bind

/-- A row of an answer. -/
structure Row where
  columns : List String
  values : List Value

def lowerAscii (c : Char) : Char :=
  if 'A' ≤ c && c ≤ 'Z' then Char.ofNat (c.toNat + 32) else c

def sameName (a b : String) : Bool := a.toList.map lowerAscii == b.toList.map lowerAscii

def Row.get? (r : Row) (i : Nat) : Option Value := r.values[i]?

/-- The value at the position of the first column of a name, in any case of ASCII letters. -/
def Row.getNamed? (r : Row) (name : String) : Option Value :=
  (r.columns.findIdx? (sameName · name)).bind r.get?

/-- What a statement did: the number of rows that it changed, the rows that it gave and the values
that came out of its parameters. -/
structure Outcome where
  rowsAffected : Nat
  rows : List Row
  outputs : Context

instance : Inhabited Outcome := ⟨⟨0, [], ∅⟩⟩

end Engine

/-- An engine over states `σ`. -/
structure Engine (σ : Type) where
  execute : Engine.Statement → σ → Except Engine.Fault Engine.Outcome × σ
  start : σ → Except Engine.Fault Unit × σ
  commit : σ → Except Engine.Fault Unit × σ
  rollback : σ → Except Engine.Fault Unit × σ

namespace Engine

variable {σ : Type}

inductive Call where
  | execute (st : Statement)
  | start
  | commit
  | rollback

/-- The engine that also records the calls that it receives, oldest first. -/
def recording (engine : Engine σ) : Engine (σ × List Call) where
  execute st s := let (a, t) := engine.execute st s.1; (a, t, s.2 ++ [.execute st])
  start s := let (a, t) := engine.start s.1; (a, t, s.2 ++ [.start])
  commit s := let (a, t) := engine.commit s.1; (a, t, s.2 ++ [.commit])
  rollback s := let (a, t) := engine.rollback s.1; (a, t, s.2 ++ [.rollback])

/-- The faults that the transaction calls of a scripted engine raise. -/
structure Failing where
  start : Option Fault
  commit : Option Fault
  rollback : Option Fault

def answerOf (fault : Option Fault) : Except Fault Unit :=
  match fault with
  | some f => .error f
  | none => .ok ()

/-- The engine that answers its executions from a list, and then with empty outcomes. Its state is
what is left of the list. -/
def scripted (failing : Failing) : Engine (List (Except Fault Outcome)) where
  execute _ script :=
    match script with
    | [] => (.ok default, [])
    | a :: rest => (a, rest)
  start s := (answerOf failing.start, s)
  commit s := (answerOf failing.commit, s)
  rollback s := (answerOf failing.rollback, s)

end Engine

end SqlTemplate
