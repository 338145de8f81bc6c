import SqlTemplate.Sql.Database
import SqlTemplate.Value.Tagged
/-!
Databases as texts, for a file that outlives a connection. A database without tables is the empty
text, so that an empty file is a database; any other one is a JSON document of its tables.
-/

namespace SqlTemplate.Sql

namespace Affinity

/-- The name of an affinity. -/
def name : Affinity → String
  | .none => "none"
  | .integer => "integer"
  | .real => "real"
  | .text => "text"
  | .numeric => "numeric"

def ofName? (s : String) : Option Affinity :=
  [none, integer, real, text, numeric].find? (·.name == s)

theorem ofName?_name (a : Affinity) : ofName? a.name = some a := by
  cases a <;> decide

end Affinity

def bytesToJson (bytes : List UInt8) : Json := .arr (bytes.map fun b => .int b.toNat)

namespace Datum

/-- A datum as a document: a real number is its bit pattern, and a text its bytes. -/
def toJson : Datum → Json
  | .null => .null
  | .int i => .int i.toInt
  | .real x => .obj [("real", .int x.toBits.toNat)]
  | .text bytes => .obj [("text", bytesToJson bytes)]
  | .blob bytes => .obj [("blob", bytesToJson bytes)]

/-- The datum of a document. -/
def ofJson? : Json → Option Datum
  | .null => some .null
  | .int i => some (.int (Int64.ofInt i))
  | .obj [("real", .int bits)] => some (.real (.ofBits (UInt64.ofNat bits.toNat)))
  | .obj [("text", .arr items)] => (Value.bytesOf? items).map .text
  | .obj [("blob", .arr items)] => (Value.bytesOf? items).map .blob
  | _ => none

end Datum

def Reference.toJson (r : Reference) : Json :=
  .arr [.text r.table, (r.column.map Json.text).getD .null, .bool r.deferred]

def Reference.ofJson? : Json → Option Reference
  | .arr [.text table, .text column, .bool deferred] => some ⟨table, some column, deferred⟩
  | .arr [.text table, .null, .bool deferred] => some ⟨table, none, deferred⟩
  | _ => none

def Column.toJson (c : Column) : Json :=
  .arr [.text c.name, .text c.affinity.name, .bool c.isNumber, .bool c.isKey, .bool c.isUnique,
    .bool c.isRequired, .arr (c.references.map Reference.toJson)]

/-- The column of a document. -/
def Column.ofJson? : Json → Option Column
  | .arr [.text name, .text affinity, .bool isNumber, .bool isKey, .bool isUnique,
      .bool isRequired, .arr references] => do
    some ⟨name, ← Affinity.ofName? affinity, isNumber, isKey, isUnique, isRequired,
      ← references.mapM Reference.ofJson?⟩
  | _ => none

def Numbered.toJson (r : Numbered) : Json := .arr (.int r.number :: r.data.map Datum.toJson)

def Numbered.ofJson? : Json → Option Numbered
  | .arr (.int number :: data) => (data.mapM Datum.ofJson?).map (⟨number, ·⟩)
  | _ => none

def Table.toJson (t : Table) : Json :=
  .obj [("table", .text t.name), ("columns", .arr (t.columns.map Column.toJson)),
    ("rows", .arr (t.rows.map Numbered.toJson))]

def Table.ofJson? : Json → Option Table
  | .obj [("table", .text name), ("columns", .arr columns), ("rows", .arr rows)] => do
    some ⟨name, ← columns.mapM Column.ofJson?, ← rows.mapM Numbered.ofJson?⟩
  | _ => none

namespace Database

def encode (db : Database) : String :=
  if db.isEmpty then "" else (Json.arr (db.map Table.toJson)).compact

/-- The database that a text keeps. -/
def decode? (s : String) : Option Database :=
  if s.isEmpty then some []
  else
    match Json.read? s with
    | some (.arr tables) => tables.mapM Table.ofJson?
    | _ => none

end Database

end SqlTemplate.Sql
