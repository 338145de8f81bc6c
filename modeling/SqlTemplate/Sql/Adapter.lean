import SqlTemplate.Engine
import SqlTemplate.Sql.Datum
import SqlTemplate.Text.Search
/-!
Databases as engines, by way of a library. The library compiles a text, binds data to the slots of
what it compiled, and runs it; it is a parameter here. An execution is refused before it runs if an
associative array is bound, if the text does not compile or if a slot has no bind of its name. The
kind of a fault is read off the code and the words of the library's failure.
-/

namespace SqlTemplate.Sql

open Engine (Fault Bind Outcome)

/-! ## Libraries -/

/-- Why a library refuses what it is asked for: its code, if there is one, its words, and whether it
is about a value that is no datum. -/
structure Failure where
  code : Option Int
  words : String
  isConversion : Bool

/-- A database library over connections `σ` and compiled statements `π`. The slots of a statement are
numbered from one; a statement keeps what is bound to them. -/
structure Library (σ π : Type) where
  compile : String → σ → Except Failure π × σ
  slotCount : π → Nat
  slotNumber? : π → String → Except Failure (Option Nat)
  slotName? : π → Nat → Option String
  bind : π → Nat → Datum → Except Failure π
  /-- The names of the columns of its answer. -/
  columns : π → List String
  isReadOnly : π → Bool
  /-- Runs a statement: a number of changed rows. -/
  run : π → σ → Except Failure Nat × σ
  /-- Runs a statement and takes all rows that it gives. -/
  query : π → σ → Except Failure (List (List Datum)) × σ
  /-- The counter of changed rows. -/
  changes : σ → Nat
  /-- Compiles and runs a text. -/
  runText : String → σ → Except Failure Nat × σ

/-! ## Faults -/

def mentions (part : String) (words : String) : Bool :=
  (Text.cutAt? part.toList words.toList).isSome

def missingPhrases : List String := ["no such table", "no such column", "no such function"]

def mentionsMissing (words : String) : Bool := missingPhrases.any (mentions · words)

namespace Failure

/-- The kind of fault that a failure is. Its code decides, then its words. -/
def kind (f : Failure) : Engine.FaultKind :=
  if f.code = some 1555 || f.code = some 2067 then .uniqueViolation
  else if mentionsMissing f.words then .missingObject
  else if mentions "syntax error" f.words || mentions "incomplete input" f.words then .invalidSyntax
  else if f.isConversion then .unsupported
  else .other

def fault (f : Failure) : Fault := ⟨f.kind, f.code, f.words⟩

end Failure

def assocFault (name : String) : Fault :=
  ⟨.unsupported, none, "associative array ':" ++ name ++ "' cannot be bound by sqlite"⟩

/-- The fault of a slot without a bind; one without a name is called by its number. -/
def slotFault (name : Option String) (number : Nat) : Fault :=
  ⟨.unboundVariable, none,
    "statement parameter '" ++ name.getD ("?" ++ toString number) ++ "' has no bind"⟩

/-! ## Data -/

/-- The datum that a value is handed over as. A sequence is none. -/
def Datum.ofValue : Value → Except Failure Datum
  | .null => .ok .null
  | .bool b => .ok (.int (if b then 1 else 0))
  | .int i => .ok (.int i)
  | .float x => .ok (.real x)
  | .text s => .ok (.text (Text.encode s.toList))
  | .bytes bs => .ok (.blob bs)
  | .seq _ => .error ⟨none, "sequences cannot be bound as a single sqlite value", true⟩

/-- The value that a datum is read as; malformed parts of a text are replaced. -/
def Datum.toValue : Datum → Value
  | .null => .null
  | .int i => .int i
  | .real x => .float x
  | .text bs => .text (String.ofList (Text.lossy bs))
  | .blob bs => .bytes bs

/-! ## Outcomes -/

/-- The values of a column as one value: none is null, one is itself, more are a sequence. -/
def gathered (rows : List (List Value)) (i : Nat) : Value :=
  match rows with
  | [] => .null
  | [row] => Value.ofOption row[i]?
  | rows => .seq (rows.map fun row => Value.ofOption row[i]?)

/-- The column that an output takes its value from: the one of its name, else the one at its place
among the outputs. -/
def outputColumn? (columns : List String) (place : Nat) (name : String) : Option Nat :=
  match columns.findIdx? (Engine.sameName · name) with
  | some i => some i
  | none => if place < columns.length then some place else none

/-- The values that come out of the binds. -/
def outputsOf (columns : List String) (rows : List (List Value)) (binds : List Bind) : Context :=
  Dict.ofList (((binds.filter (·.direction.isOutput)).zipIdx).map fun (b, place) =>
    (b.name, ((outputColumn? columns place b.name).map (gathered rows)).getD .null))

def outcomeOf (changed : Nat) (columns : List String) (data : List (List Datum))
    (binds : List Bind) : Outcome :=
  let rows := data.map fun row => row.map Datum.toValue
  ⟨changed, rows.map fun row => ⟨columns, row⟩, outputsOf columns rows binds⟩

/-! ## Executions -/

def firstAssoc? (binds : List Bind) : Option Bind :=
  binds.find? fun b => b.carried matches .assoc _

namespace Library

variable {σ π : Type} (lib : Library σ π)

/-- Binds every scalar to the slot of its name, if there is one; `bound` marks the slots that have
been bound. -/
def bindEach (p : π) (bound : List Bool) : List Bind → Except Fault (π × List Bool)
  | [] => .ok (p, bound)
  | b :: bs =>
    match b.carried with
    | .assoc _ => bindEach p bound bs
    | .scalar v =>
      match lib.slotNumber? p (":" ++ b.name) with
      | .error f => .error f.fault
      | .ok none => bindEach p bound bs
      | .ok (some i) =>
        match Datum.ofValue v >>= lib.bind p i with
        | .error f => .error f.fault
        | .ok q => bindEach q (bound.set (i - 1) true) bs

/-- Fills the slots of a statement from the binds of their names; each of them needs one. -/
def bindAll (p : π) (binds : List Bind) : Except Fault π :=
  match lib.bindEach p (List.replicate (lib.slotCount p) false) binds with
  | .error f => .error f
  | .ok (q, bound) =>
    match bound.idxOf? false with
    | some k => .error (slotFault (lib.slotName? q (k + 1)) (k + 1))
    | none => .ok q

/-- Runs a statement. One without columns answers with the number that the library returns; one with
columns counts nothing if it only reads, and else what the library's counter holds after it. -/
def perform (p : π) (binds : List Bind) (s : σ) : Except Fault Outcome × σ :=
  if (lib.columns p).isEmpty then
    match lib.run p s with
    | (.error f, t) => (.error f.fault, t)
    | (.ok changed, t) => (.ok ⟨changed, [], ∅⟩, t)
  else
    match lib.query p s with
    | (.error f, t) => (.error f.fault, t)
    | (.ok rows, t) =>
      (.ok (outcomeOf (if lib.isReadOnly p then 0 else lib.changes t) (lib.columns p) rows binds), t)

/-- Executes a statement. -/
def execute (st : Engine.Statement) (s : σ) : Except Fault Outcome × σ :=
  match firstAssoc? st.binds with
  | some b => (.error (assocFault b.name), s)
  | none =>
    match lib.compile st.sql s with
    | (.error f, t) => (.error f.fault, t)
    | (.ok p, t) =>
      match lib.bindAll p st.binds with
      | .error f => (.error f, t)
      | .ok q => lib.perform q st.binds t

def command (sql : String) (s : σ) : Except Fault Unit × σ :=
  match lib.runText sql s with
  | (.error f, t) => (.error f.fault, t)
  | (.ok _, t) => (.ok (), t)

def engine : Engine σ where
  execute := lib.execute
  start := lib.command "BEGIN TRANSACTION"
  commit := lib.command "COMMIT"
  rollback := lib.command "ROLLBACK"

end Library

end SqlTemplate.Sql
