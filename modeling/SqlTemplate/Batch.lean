import SqlTemplate.Catalog
/-!
Executing a catalog. A catalog with an array makes one statement per row; they run in order, each
whatever came of the others, and the batch succeeds if every row did. Any other catalog makes one
statement.
-/

namespace SqlTemplate

open Engine (Statement Bind Carried Outcome Fault)

/-- What came out of a parameter: one value, or a list with a value per row or per element. -/
inductive Output where
  | scalar (v : Value)
  | array (values : List Value)

/-- What an execution did: the number of rows that it changed, the rows that it gave and what came
out of its parameters. -/
structure Result where
  rowsAffected : Nat
  rows : List Engine.Row
  outputs : Dict String Output

/-- What row `i` carries of a payload. -/
def Payload.atRow (p : Payload) (i : Nat) : Carried :=
  match p with
  | .scalar v => .scalar v
  | .array values => .scalar (Value.ofOption values[i]?)
  | .assoc entries => .assoc entries

def Spec.bindAt (s : Spec) (i : Nat) : Bind := ⟨s.name, s.direction, s.payload.atRow i, s.capacity⟩

/-- The values that an associative output gave. -/
def Value.toList : Value → List Value
  | .seq items => items
  | .null => []
  | v => [v]

def Engine.Outcome.captured (o : Outcome) (name : String) : Value :=
  Value.ofOption (o.outputs.get? name)

/-- Runs statements in order, each on the state that the one before it left. -/
def Engine.runAll {σ : Type} (engine : Engine σ) :
    List Statement → σ → List (Except Fault Outcome) × σ
  | [], s => ([], s)
  | st :: rest, s =>
    let (answer, t) := engine.execute st s
    let (answers, u) := runAll engine rest t
    (answer :: answers, u)

/-- The faults among the answers, with the row of each, counted from `i`. -/
def faultsFrom (i : Nat) : List (Except Fault Outcome) → List (Nat × Fault)
  | [] => []
  | .ok _ :: rest => faultsFrom (i + 1) rest
  | .error f :: rest => (i, f) :: faultsFrom (i + 1) rest

def outcomes : List (Except Fault Outcome) → List Outcome
  | [] => []
  | .ok o :: rest => o :: outcomes rest
  | .error _ :: rest => outcomes rest

/-- The result of a batch whose rows all succeeded. -/
def Result.ofRows (outputs : List Spec) (os : List Outcome) : Result where
  rowsAffected := os.foldl (fun n o => n + o.rowsAffected) 0
  rows := os.flatMap (·.rows)
  outputs := Dict.ofList (outputs.map fun s => (s.name, .array (os.map (·.captured s.name))))

def Spec.outputOf (s : Spec) (o : Outcome) : Output :=
  match s.payload with
  | .assoc _ => .array (o.captured s.name).toList
  | _ => .scalar (o.captured s.name)

/-- The result of one statement. -/
def Result.ofOutcome (outputs : List Spec) (o : Outcome) : Result where
  rowsAffected := o.rowsAffected
  rows := o.rows
  outputs := Dict.ofList (outputs.map fun s => (s.name, s.outputOf o))

namespace Catalog

/-- The parameters that go with a statement which uses some names: those, and every output. -/
def sent (c : Catalog) (used : List String) : List Spec :=
  c.specs.filter fun s => s.direction.isOutput || used.contains s.name

def outputs (c : Catalog) (used : List String) : List Spec :=
  (c.sent used).filter (·.direction.isOutput)

def statement (c : Catalog) (sql : String) (used : List String) (i : Nat) : Statement :=
  ⟨sql, (c.sent used).map (·.bindAt i)⟩

/-- The number of rows, if the catalog is executed row by row. -/
def batchCount? (c : Catalog) : Option Nat := if c.hasArray then c.count else none

/-- Runs a statement text with the parameters that it uses, once or row by row. -/
def run {σ : Type} (c : Catalog) (sql : String) (used : List String) (engine : Engine σ) (s : σ) :
    Except Error Result × σ :=
  match c.batchCount? with
  | none =>
    match engine.execute (c.statement sql used 0) s with
    | (.ok o, t) => (.ok (.ofOutcome (c.outputs used) o), t)
    | (.error f, t) => (.error (.engine f), t)
  | some n =>
    let (answers, t) := engine.runAll ((List.range n).map (c.statement sql used)) s
    match faultsFrom 0 answers with
    | [] => (.ok (.ofRows (c.outputs used) (outcomes answers)), t)
    | failures => (.error (.batch n failures), t)

/-- Executes a statement text once for the declarations that were made: a catalog that was executed
refuses, and so does one that lacks a used name; the engine is then not called. -/
def execute {σ : Type} (c : Catalog) (sql : String) (used : List String) (engine : Engine σ)
    (s : σ) : Except Error Result × Catalog × σ :=
  match c.phase with
  | .executed => (.error (.argument "catalog" .executed), c, s)
  | .building =>
    match c.validate used with
    | .error e => (.error e, c, s)
    | .ok () =>
      let (answer, t) := c.run sql used engine s
      (answer, { c with phase := .executed }, t)

end Catalog

end SqlTemplate
