import SqlTemplate.Sql.Expression
/-!
Databases: tables with their rows in ascending order of a number that each row has, and the
constraints on what a row may hold. A row is checked when it is put into its table; references are
counted over the whole database, so that a statement may break one and mend it again.
-/

namespace SqlTemplate.Sql

structure Numbered where
  number : Int
  data : List Datum

structure Table where
  name : String
  columns : List Column
  rows : List Numbered

/-- The tables in the order in which they were created. -/
abbrev Database := List Table

def Database.find? (db : Database) (name : String) : Option Table :=
  List.find? (Engine.sameName ·.name name) db

def Database.replace (db : Database) (t : Table) : Database :=
  db.map fun u => if u.name = t.name then t else u

def equals (x y : Datum) : Bool := x ≠ .null && x.order y == .eq

namespace Table

def nextNumber (t : Table) : Int := (t.rows.getLast?.map (·.number + 1)).getD 1

def place (r : Numbered) : List Numbered → List Numbered
  | [] => [r]
  | q :: qs => if r.number < q.number then r :: q :: qs else q :: place r qs

def datumAt (row : List Datum) (i : Nat) : Datum := row[i]?.getD .null

/-- The number and the data of a row: the column that numbers the rows gives the number and gets it
if it is null. -/
def numbered (t : Table) (row : List Datum) : Except Problem Numbered :=
  match t.columns.findIdx? (·.isNumber) with
  | none => .ok ⟨t.nextNumber, row⟩
  | some i =>
    match datumAt row i with
    | .null => .ok ⟨t.nextNumber, row.set i (.ofInt t.nextNumber)⟩
    | .int n => .ok ⟨n.toInt, row⟩
    | _ => .error .notNumber

def stored (t : Table) (row : List Datum) : List Datum :=
  List.zipWith (fun c d => c.affinity.store d) t.columns row

/-- The first column that needs a datum and has none. -/
def checkRequired (t : Table) (row : List Datum) : Except Problem Unit :=
  match (t.columns.zip row).find? fun c => c.1.isRequired && !c.1.isNumber && c.2 = .null with
  | some c => .error (.nullFailed t.name c.1.name)
  | none => .ok ()

/-- No other row has the number, or in a unique column the datum, of this row. The number counts
first, then the columns from the last to the first. -/
def checkUnique (t : Table) (r : Numbered) : Except Problem Unit :=
  let unique (c : Column × Nat) : Bool := (c.1.isKey || c.1.isUnique) && !c.1.isNumber
  let taken (c : Column × Nat) : Bool :=
    t.rows.any fun q => equals (datumAt r.data c.2) (datumAt q.data c.2)
  if t.rows.any (·.number == r.number) then
    match t.columns.find? (·.isNumber) with
    | some c => .error (.uniqueFailed t.name c.name true)
    | none => .error (.uniqueFailed t.name "rowid" true)
  else
    match (t.columns.zipIdx.reverse).find? fun c => unique c && taken c with
    | some c => .error (.uniqueFailed t.name c.1.name c.1.isKey)
    | none => .ok ()

/-- The table with one more row, and the row as it is stored. -/
def put (t : Table) (row : List Datum) : Except Problem (Table × Numbered) := do
  let r ← t.numbered (t.stored row)
  t.checkRequired r.data
  t.checkUnique r
  .ok ({ t with rows := place r t.rows }, r)

def drop (t : Table) (numbers : List Int) : Table :=
  { t with rows := t.rows.filter fun r => !numbers.contains r.number }

/-- The number that a changed row has: its own, or the one in the column that numbers the rows. -/
def renumbered (t : Table) (number : Int) (row : List Datum) : Except Problem Numbered :=
  match t.columns.findIdx? (·.isNumber) with
  | none => .ok ⟨number, row⟩
  | some i =>
    match datumAt row i with
    | .int n => .ok ⟨n.toInt, row⟩
    | _ => .error .notNumber

/-- The table with a row replaced, and the new row as it is stored. -/
def replaceRow (t : Table) (old : Numbered) (row : List Datum) :
    Except Problem (Table × Numbered) := do
  let without := t.drop [old.number]
  let r ← t.renumbered old.number (t.stored row)
  without.checkRequired r.data
  without.checkUnique r
  .ok ({ t with rows := place r without.rows }, r)

end Table

/-! ## References -/

namespace Database

/-- The column of the parent that a reference means: the one that it names, or the key. -/
def target? (parent : Table) (r : Reference) : Option (Nat × Column) :=
  match r.column with
  | some name => findColumn? parent.columns name
  | none => ((parent.columns.zipIdx).find? (·.1.isKey)).map fun c => (c.2, c.1)

/-- The column that a reference means, if no two rows can have the same datum there. -/
def keyOf (child : Table) (parent : Table) (r : Reference) : Except Problem (Nat × Column) :=
  match target? parent r with
  | some (i, c) =>
    if c.isKey || c.isUnique then .ok (i, c) else .error (.keyMismatch child.name r.table)
  | none => .error (.keyMismatch child.name r.table)

def references (t : Table) : List (Nat × Reference) :=
  (t.columns.zipIdx).flatMap fun c => c.1.references.map fun r => (c.2, r)

/-- The number of rows of a table whose datum in a column means no row of the parent. -/
def orphans (db : Database) (t : Table) (i : Nat) (r : Reference) : Nat :=
  match db.find? r.table with
  | none => 0
  | some parent =>
    match target? parent r with
    | none => 0
    | some (j, c) =>
      (t.rows.filter fun row =>
        let d := c.affinity.store (Table.datumAt row.data i)
        d ≠ .null && !parent.rows.any fun q => equals d (Table.datumAt q.data j)).length

/-- The number of references that mean nothing, of those that are deferred or of the others. -/
def broken (db : Database) (deferred : Bool) : Nat :=
  let counts := db.flatMap fun t =>
    ((references t).filter fun r => r.2.deferred == deferred).map fun r => orphans db t r.1 r.2
  counts.foldl (· + ·) 0

/-- The references from and to a table are sound: what they refer to exists, and is a key. -/
def checkReferences (db : Database) (t : Table) : Except Problem Unit := do
  (references t).forM fun (_, r) =>
    match db.find? r.table with
    | none => .error (.noTable ("main." ++ r.table))
    | some parent => (keyOf t parent r).map fun _ => ()
  db.forM fun child => (references child).forM fun (_, r) =>
    if Engine.sameName r.table t.name then (keyOf child t r).map fun _ => () else .ok ()

end Database

end SqlTemplate.Sql
