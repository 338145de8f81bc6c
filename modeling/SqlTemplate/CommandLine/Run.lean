import SqlTemplate.Command
import SqlTemplate.CommandLine.Preferences
import SqlTemplate.CommandLine.Report
import SqlTemplate.Sql.Connection
import SqlTemplate.Sql.Storage
/-!
Runs of the command line. A run reads its arguments, the preferences, and then what its task names;
the first thing that fails ends it. What it asks of the machine that it is on is a record of
actions in any monad, so that a run is also a function of a collection of files.
-/

namespace SqlTemplate.CommandLine

/-- What a run asks of the machine that it is on: what is left of the standard input, whether there
is a file or directory at a path, the text of a file, and to write a file, which may be refused. -/
structure Host (m : Type → Type) where
  input : m (Except String String)
  present : String → m Bool
  read : String → m (Except String String)
  write : String → String → m Bool

abbrev Action (m : Type → Type) := ExceptT Failure m

variable {m : Type → Type} [Monad m]

namespace Host

/-- The text that a path names: the standard input for a dash. -/
def source (host : Host m) (path : String) : Action m String := do
  match ← (if path = "-" then host.input else host.read path : m (Except String String)) with
  | .ok text => pure text
  | .error cause => throw (.unreadable path cause)

/-- The values of the JSON object that a path names, none without a path. -/
def values (host : Host m) : Option String → Action m Context
  | none => pure ∅
  | some path => do
    match Context.readObject? (← host.source path) with
    | some values => pure values
    | none => throw (.notObject path)

/-- The preferences of the file at a path. -/
def preferencesAt (host : Host m) (path : String) : Action m Preferences := do
  match ← host.read path with
  | .ok document => Preferences.read path document
  | .error cause => throw (.configUnreadable path cause)

/-- The preferences of the file that was named, which has to be there, or else of the standard
one, which need not be. -/
def preferences (host : Host m) (named standard : Option String) : Action m Preferences := do
  match named, standard with
  | some path, _ =>
    if ← host.present path then host.preferencesAt path else throw (.configMissing path)
  | none, some path =>
    if ← host.present path then host.preferencesAt path else pure .standard
  | none, none => pure .standard

/-- The database at a path, made there if nothing is. -/
def database (host : Host m) (path : String) : Action m Sql.Database := do
  if ← host.present path then
    match ← host.read path with
    | .ok text =>
      match Sql.Database.decode? text with
      | some db => pure db
      | none => throw (.database Sql.formatFault)
    | .error _ => throw (.database (Sql.openFault path))
  else if ← host.write path "" then pure []
  else throw (.database (Sql.openFault path))

/-- Keeps a database at a path where its text differs from the one that is there. -/
def keep (host : Host m) (path : String) (before after : Sql.Database) : Action m Unit := do
  let text := after.encode
  if text ≠ before.encode then
    unless ← host.write path text do throw (.database Sql.writeFault)

end Host

def declarations (binds : Context) (outputs : List String) : List Declaration :=
  (binds.entries.map fun (name, v) =>
    match v with
    | .seq items => .array name items
    | v => .scalar name v) ++ outputs.map .output

/-- The command that a task is about: a text with its declarations. -/
def commandOf (text : String) (rowCount : Option Nat) : Except Error Command :=
  match rowCount with
  | some n => Command.withCount text n
  | none => .ok (Command.ofText text)

def orRefuse {α : Type} : Except Error α → Action m α
  | .ok a => pure a
  | .error e => throw (.refused e)

/-- Executes a command on the database of the settings. What the command committed is kept whatever
it answered. -/
def execute (host : Host m) (settings : Settings) (command : Command) : Action m Report := do
  let connect (db : Sql.Database) :=
    command.execute Sql.Connection.engine (.ofDatabase settings db)
  let answer ← match settings.storedAt? with
    | none => pure (connect []).1
    | some path =>
      let db ← host.database path
      let (answer, _, connection) := connect db
      host.keep path db connection.committed
      pure answer
  return .executed (← orRefuse answer)

/-- Carries out a task. -/
def perform (host : Host m) (p : Preferences) : Task → Action m Report
  | .prune template values repeats normalize => do
    let text ← host.source template
    let sql ← orRefuse (Template.prune text (← host.values values) repeats)
    if normalize || p.normalize then
      return .pruned (String.ofList (Text.collapse sql.toList))
    else return .pruned sql
  | .eval expression values => do
    let context ← host.values values
    return .judged expression (← orRefuse (Condition.holds (some context) expression))
  | .exec template database binds rowCount outputs => do
    let text ← host.source template
    let command ← orRefuse (commandOf text rowCount)
    let binds ← host.values binds
    let command ← orRefuse (command.declareAll (declarations binds outputs))
    let settings := (database.map p.settings.withPath).getD p.settings
    execute host settings command

/-- Runs an invocation: what it prints. -/
def Invocation.run (host : Host m) (standardConfig : Option String) (inv : Invocation) :
    Action m String := do
  let p ← host.preferences inv.config standardConfig
  let report ← perform host p inv.task
  return report.write ((inv.format <|> p.format).getD .text)

/-- How a run ends: with what it prints, with a failure, or with arguments that stop it. -/
inductive Ending where
  | printed (text : String)
  | failed (f : Failure)
  | stopped (s : Stop)

/-- Runs the command line with its arguments, the file of preferences that the environment names
and the one that is read where none is named. -/
def run (host : Host m) (environment standardConfig : Option String) (arguments : List String) :
    m Ending := do
  match Invocation.ofArguments environment arguments with
  | .error s => return .stopped s
  | .ok inv =>
    match ← (inv.run host standardConfig).run with
    | .ok text => return .printed text
    | .error f => return .failed f

def helpText : String :=
  "Usage: sqlweave [--config PATH] [--format text|json] TASK\n\n" ++
  "  prune TEMPLATE [--values FILE] [--repeat NAME=N]... [--normalize]\n" ++
  "  eval EXPR [--values FILE]\n" ++
  "  exec TEMPLATE [--db PATH] [--binds FILE] [--array-bind-count N] [--out NAME]...\n"

def versionText : String := "sqlweave 0.4.0\n"

namespace Ending

def code : Ending → UInt32
  | .printed _ | .stopped .help | .stopped .version => 0
  | .failed _ => 1
  | .stopped (.misused _) => 2

def output : Ending → String
  | .printed text => text
  | .stopped .help => helpText
  | .stopped .version => versionText
  | _ => ""

def errors : Ending → String
  | .failed f => f.report
  | .stopped (.misused u) => "error: " ++ u.message ++ "\n"
  | _ => ""

end Ending

end SqlTemplate.CommandLine
