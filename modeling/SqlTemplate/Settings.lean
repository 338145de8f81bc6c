import SqlTemplate.Json
import SqlTemplate.Toml.Reader
/-!
Settings of a database connection: their presets, the names of their choices and how they are read
from a TOML document. What a document leaves out keeps its default.
-/

namespace SqlTemplate

/-- Where a database keeps the journal of a transaction. -/
inductive Journal where
  | delete
  | wal
  | memory
  | off
  deriving DecidableEq, Repr

def Journal.name : Journal → String
  | .delete => "delete"
  | .wal => "wal"
  | .memory => "memory"
  | .off => "off"

def Journal.pragma : Journal → String
  | .delete => "DELETE"
  | .wal => "WAL"
  | .memory => "MEMORY"
  | .off => "OFF"

/-- How often a database waits for its data to reach the disk. -/
inductive Synchrony where
  | full
  | normal
  | off
  deriving DecidableEq, Repr

def Synchrony.name : Synchrony → String
  | .full => "full"
  | .normal => "normal"
  | .off => "off"

def Synchrony.pragma : Synchrony → String
  | .full => "FULL"
  | .normal => "NORMAL"
  | .off => "OFF"

/-- Settings of a connection. Without a path the database is private to it and kept in memory; the
timeout, in milliseconds, is for a database that another connection has locked. -/
structure Settings where
  path : Option String
  busyTimeout : Nat
  journal : Journal
  synchrony : Synchrony
  foreignKeys : Bool
  deriving DecidableEq, Repr

namespace Settings

def standard : Settings := ⟨none, 5000, .delete, .full, true⟩

instance : Inhabited Settings := ⟨standard⟩

/-- A private database in memory. -/
def inMemory : Settings := { standard with journal := .memory, synchrony := .off }

/-- A database in a file that survives a crash of the machine. -/
def durable (path : String) : Settings := { standard with path := some path, journal := .wal }

/-- A database in a file for loading much at once. -/
def fast (path : String) : Settings := ⟨some path, 1000, .wal, .normal, false⟩

def withPath (s : Settings) (path : String) : Settings := { s with path := some path }

/-- The path of the file that the database is kept in; a private one is in no file. -/
def storedAt? (s : Settings) : Option String :=
  s.path.filter fun path => path ≠ "" && path ≠ ":memory:"

/-- The settings as a document. -/
def toJson (s : Settings) : Json := .obj [
  ("path", match s.path with
    | some p => .text p
    | none => .null),
  ("busy_timeout_ms", .int s.busyTimeout),
  ("journal_mode", .text s.journal.name),
  ("synchronous", .text s.synchrony.name),
  ("foreign_keys", .bool s.foreignKeys)]

end Settings

namespace Toml

def text? : Toml → Option String
  | .text s => some s
  | _ => none

def bool? : Toml → Option Bool
  | .bool b => some b
  | _ => none

def natural? : Toml → Option Nat
  | .int (.ofNat n) => some n
  | _ => none

def isVacant : Toml → Bool
  | .arr items => items.isEmpty
  | .table _ es => es.isEmpty
  | .tables items => items.isEmpty
  | _ => false

/-- The choice that a value names: as a string, or as the one key of a table whose value is
vacant. -/
def choice? {α : Type} (choices : List α) (name : α → String) (v : Toml) : Option α :=
  match v with
  | .text s => choices.find? (name · == s)
  | .table _ [(s, w)] => if w.isVacant then choices.find? (name · == s) else none
  | _ => none

/-- The values of the named fields: those of a table by key, those of an array in the order of the
names. A moment has none of them. -/
def fields? (names : List String) : Toml → Option (List (Option Toml))
  | .table _ es => some (names.map (List.lookup · es))
  | .arr items => some ((List.range names.length).map (items[·]?))
  | .tables items => some ((List.range names.length).map fun i => items[i]?.map (.table .declared))
  | .moment _ => some (names.map fun _ => none)
  | _ => none

def orElse {α : Type} (read : Toml → Option α) (standard : α) : Option Toml → Option α
  | none => some standard
  | some v => read v

end Toml

namespace Settings

/-- The settings that a value holds. -/
def ofToml? (v : Toml) : Option Settings := do
  let standard := Settings.standard
  let fields ← v.fields? ["path", "busy_timeout_ms", "journal_mode", "synchronous", "foreign_keys"]
  match fields with
  | [path, busy, journal, synchrony, keys] =>
    some {
      path := ← Toml.orElse (fun v => v.text?.map some) standard.path path
      busyTimeout := ← Toml.orElse Toml.natural? standard.busyTimeout busy
      journal := ← Toml.orElse (Toml.choice? [.delete, .wal, .memory, .off] Journal.name)
        standard.journal journal
      synchrony := ← Toml.orElse (Toml.choice? [.full, .normal, .off] Synchrony.name)
        standard.synchrony synchrony
      foreignKeys := ← Toml.orElse Toml.bool? standard.foreignKeys keys }
  | _ => none

def read? (document : String) : Option Settings :=
  (Toml.read? document).bind fun es => ofToml? (.table .declared es)

end Settings

end SqlTemplate
