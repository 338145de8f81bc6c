import SqlTemplate.Settings
import SqlTemplate.Sql.Execution
import SqlTemplate.Sql.Parser
/-!
Connections to a database, as a library for the small part of SQL that the parser reads. A statement
is prepared, data are bound to its slots, and it runs as a whole or not at all. A transaction keeps
the database as it was at its start; deferred references are checked at its end.
-/

namespace SqlTemplate.Sql

/-- A connection: the database as it sees it, the database as it was when the open transaction
began, how many rows the last counted statement changed, and whether references are checked. -/
structure Connection where
  database : Database
  saved : Option Database
  changes : Nat
  checksKeys : Bool

/-- A statement that is ready to run: its slots, the names of the columns of its answer and the data
that are bound to the slots. -/
structure Prepared where
  statement : Statement
  slots : Slots
  columns : List String
  data : List Datum

namespace Prepared

def slotNumber? (p : Prepared) (name : String) : Option Nat :=
  (p.slots.idxOf? (some name)).map (· + 1)

def slotName? (p : Prepared) (number : Nat) : Option String := (p.slots[number - 1]?).join

def bind (p : Prepared) (number : Nat) (d : Datum) : Except Failure Prepared :=
  if 0 < number ∧ number ≤ p.data.length then
    .ok { p with data := p.data.set (number - 1) d.kept }
  else .error ⟨some 25, "column index out of range", false⟩

end Prepared

namespace Connection

def ofDatabase (settings : Settings) (db : Database) : Connection :=
  ⟨db, none, 0, settings.foreignKeys⟩

/-- The database without what an open transaction did. -/
def committed (c : Connection) : Database := c.saved.getD c.database

def isIdle (c : Connection) : Bool := c.saved.isNone

/-- The references of the table that a statement writes to, where they are checked. -/
def checkTarget (c : Connection) (s : Statement) : Except Problem Unit :=
  match s.target?.bind c.database.find? with
  | some t => if c.checksKeys then Database.checkReferences c.database t else .ok ()
  | none => .ok ()

/-- Reads and resolves the first statement of a text. Nothing is bound to its slots yet. -/
def prepare (c : Connection) (sql : String) : Except Problem Prepared := do
  let (s, slots) ← read (fun name => (c.database.find? name).isSome) sql
  let columns ← s.resolve c.database
  c.checkTarget s
  .ok ⟨s, slots, columns, slots.map fun _ => .null⟩

/-- Whether a database has more broken references than another, where they are checked. -/
def breaks (c : Connection) (deferred : Bool) (before after : Database) : Bool :=
  c.checksKeys && Database.broken before deferred < Database.broken after deferred

def start (c : Connection) : Except Problem Unit × Connection :=
  if c.isIdle then (.ok (), { c with saved := some c.database }) else (.error .startInside, c)

/-- Ends the transaction and keeps what it did. It stays open if a deferred reference is broken. -/
def commit (c : Connection) : Except Problem Unit × Connection :=
  match c.saved with
  | none => (.error .commitOutside, c)
  | some before =>
    if c.breaks true before c.database then (.error .keyFailed, c)
    else (.ok (), { c with saved := none })

def rollback (c : Connection) : Except Problem Unit × Connection :=
  match c.saved with
  | none => (.error .rollbackOutside, c)
  | some before => (.ok (), { c with database := before, saved := none })

/-- The connection after a statement whose effect is refused: a counted one changed no rows. -/
def refused (c : Connection) (s : Statement) : Connection :=
  if s.isCounted then { c with changes := 0 } else c

/-- Runs a statement with the data of its slots: the rows that it gives. -/
def perform (c : Connection) (s : Statement) (slots : List Datum) :
    Except Problem (List (List Datum)) × Connection :=
  match s with
  | .start => let (r, d) := c.start; (r.map fun _ => [], d)
  | .commit => let (r, d) := c.commit; (r.map fun _ => [], d)
  | .rollback => let (r, d) := c.rollback; (r.map fun _ => [], d)
  | s =>
    match s.effect c.database slots with
    | .error p => (.error p, c.refused s)
    | .ok e =>
      if c.breaks false c.database e.database || (c.isIdle && c.breaks true c.database e.database)
      then (.error .keyFailed, c.refused s)
      else
        (.ok e.rows, { c with
          database := e.database
          changes := if s.isCounted then e.changed else c.changes })

/-- Runs a statement that was prepared: the rows that it gives. Its problems are about no place in
the text. -/
def query (p : Prepared) (c : Connection) : Except Failure (List (List Datum)) × Connection :=
  match c.perform p.statement p.data with
  | (.error q, d) => (.error (q.failure ""), d)
  | (.ok rows, d) => (.ok rows, d)

/-- Runs a statement that was prepared: the count of changed rows after it. -/
def run (p : Prepared) (c : Connection) : Except Failure Nat × Connection :=
  match query p c with
  | (.error f, d) => (.error f, d)
  | (.ok _, d) => (.ok d.changes, d)

/-- Prepares a text. This leaves the connection as it is. -/
def compile (sql : String) (c : Connection) : Except Failure Prepared × Connection :=
  match c.prepare sql with
  | .error q => (.error (q.failure sql), c)
  | .ok p => (.ok p, c)

def runText (sql : String) (c : Connection) : Except Failure Nat × Connection :=
  match compile sql c with
  | (.error f, d) => (.error f, d)
  | (.ok p, d) => run p d

/-- Connections as a library. -/
def library : Library Connection Prepared where
  compile := compile
  slotCount p := p.slots.length
  slotNumber? p name := .ok (p.slotNumber? name)
  slotName? := Prepared.slotName?
  bind := Prepared.bind
  columns := Prepared.columns
  isReadOnly p := p.statement.isQuery
  run := run
  query := query
  changes := changes
  runText := runText

def engine : Engine Connection := library.engine

end Connection

def openFault (path : String) : Engine.Fault :=
  Failure.fault ⟨some 14, "unable to open database file: " ++ path, false⟩

def formatFault : Engine.Fault := Failure.fault ⟨some 26, "file is not a database", false⟩

def writeFault : Engine.Fault := Failure.fault ⟨some 8, "attempt to write a readonly database", false⟩

end SqlTemplate.Sql
