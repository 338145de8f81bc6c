import SqlTemplate.Sql.Database
/-!
What statements do to a database. A statement is resolved against the tables before it runs, which
finds the names of its columns or its first name that means nothing; running it gives a new
database, and on a problem none, so that it is carried out as a whole or not at all.
-/

namespace SqlTemplate.Sql

/-- What a statement did: the database after it, the number of rows that it put in, changed or took
out, and the rows that it gave. -/
structure Effect where
  database : Database
  changed : Nat
  rows : List (List Datum)

/-! ## Resolution -/

def tableOf (db : Database) (name : String) : Except Problem Table :=
  match db.find? name with
  | some t => .ok t
  | none => .error (.noTable name)

/-- The name of an item: its label, else the name of the column that it is, else its text. -/
def Item.names (columns : List Column) : Item → List String
  | .all => columns.map (·.name)
  | .expr _ (some label) _ => [label]
  | .expr (.column name _) none source =>
    [((findColumn? columns name).map fun c => c.2.name).getD source]
  | .expr _ none source => [source]

def Item.exprs (columns : List Column) : Item → List Expr
  | .all => columns.map fun c => .column c.name 0
  | .expr e _ _ => [e]

/-- The expression that a term of an order means: the item of its label or its position, or
itself. -/
def orderExpr (items : List Item) (e : Expr) : Expr :=
  match e with
  | .column name _ =>
    (items.findSome? fun i =>
      match i with
      | .expr e (some label) _ => if Engine.sameName label name then some e else none
      | _ => none).getD e
  | .datum (.int k) =>
    match items[(k.toInt - 1).toNat]? with
    | some (.expr i _ _) => if 0 < k then i else e
    | _ => e
  | e => e

def checkItems (columns : List Column) (items : List Item) : Except Problem Unit :=
  checkAll columns (items.flatMap (Item.exprs columns))

def checkCondition (columns : List Column) (condition : Option Expr) : Except Problem Unit :=
  match condition with
  | some e => e.check columns
  | none => .ok ()

/-- Every changed column is one of the table, after the names in what it becomes. -/
def checkChanges (t : Table) (changes : List (String × Expr)) : Except Problem Unit :=
  changes.forM fun (name, e) => do
    e.check t.columns
    if (findColumn? t.columns name).isSome then .ok () else .error (.noTarget name)

/-- The rows have as many data as the columns that they are for. -/
def checkWidth (written : String) (t : Table) (names : Option (List String))
    (rows : List (List Expr)) : Except Problem Unit :=
  match rows with
  | [] => .ok ()
  | first :: rest =>
    if rest.any (·.length ≠ first.length) then .error .unevenRows
    else
      match names with
      | none =>
        if first.length = t.columns.length then .ok ()
        else .error (.width written t.columns.length first.length)
      | some ns =>
        if first.length = ns.length then .ok () else .error (.listWidth ns.length first.length)

/-- Every column has a name of its own, in any case of ASCII letters, and at most one is the key. -/
def checkColumns (table : String) (before : List Column) : List Column → Except Problem Unit
  | [] => .ok ()
  | c :: cs =>
    if before.any (Engine.sameName ·.name c.name) then .error (.duplicateColumn c.name)
    else if c.isKey && before.any (·.isKey) then .error (.manyKeys table)
    else checkColumns table (before ++ [c]) cs

/-- The names of the columns of a statement's answer; a statement without an answer has none. -/
def Statement.resolve (db : Database) : Statement → Except Problem (List String)
  | .nothing | .start | .commit | .rollback => .ok []
  | .create table _ columns => do
    checkColumns table [] columns
    .ok []
  | .insert table names rows items => do
    let t ← tableOf db table
    match (names.getD []).find? fun n => (findColumn? t.columns n).isNone with
    | some n => .error (.noField table n)
    | none => .ok ()
    rows.reverse.forM (checkAll [])
    checkWidth table t names rows
    checkItems t.columns items
    .ok (items.flatMap (Item.names t.columns))
  | .update table changes condition items => do
    let t ← tableOf db table
    checkChanges t changes
    checkCondition t.columns condition
    checkItems t.columns items
    .ok (items.flatMap (Item.names t.columns))
  | .delete table condition items => do
    let t ← tableOf db table
    checkCondition t.columns condition
    checkItems t.columns items
    .ok (items.flatMap (Item.names t.columns))
  | .select items table condition order => do
    let columns ← match table with
      | some name => (tableOf db name).map (·.columns)
      | none =>
        if items.any fun i => i matches .all then .error .noSource else .ok []
    checkItems columns items
    checkCondition columns condition
    checkAll columns (order.map fun o => orderExpr items o.expr)
    .ok (items.flatMap (Item.names columns))

def Statement.isQuery : Statement → Bool
  | .select .. => true
  | _ => false

/-- Whether a statement puts in, changes or takes out rows, so that it is counted. -/
def Statement.isCounted : Statement → Bool
  | .insert .. | .update .. | .delete .. => true
  | _ => false

/-! ## Running -/

def holds (columns : List Column) (slots : List Datum) (condition : Option Expr)
    (row : List Datum) : Bool :=
  match condition with
  | none => true
  | some e => (e.eval ⟨columns, row, slots, 0⟩).truth? = some true

def project (columns : List Column) (slots : List Datum) (items : List Item) (count : Nat)
    (row : List Datum) : List Datum :=
  evalAll ⟨columns, row, slots, count⟩ (items.flatMap (Item.exprs columns))

/-- The row of a table in which the named columns have the data and all others are null. -/
def spread (t : Table) (names : Option (List String)) (data : List Datum) : List Datum :=
  match names with
  | none => data
  | some ns =>
    t.columns.map fun c =>
      ((ns.zip data).find? fun e => Engine.sameName e.1 c.name).map (·.2) |>.getD .null

/-- Puts rows into a table, in order. -/
def putAll (t : Table) : List (List Datum) → Except Problem (Table × List Numbered)
  | [] => .ok (t, [])
  | row :: rows => do
    let (t, r) ← t.put row
    let (t, rs) ← putAll t rows
    .ok (t, r :: rs)

/-- The row with its changed columns replaced; what they become is about the row as it was. -/
def changed (t : Table) (slots : List Datum) (changes : List (String × Expr)) (row : List Datum) :
    List Datum :=
  changes.foldl (fun new (name, e) =>
    match findColumn? t.columns name with
    | some (i, _) => new.set i (e.eval ⟨t.columns, row, slots, 0⟩)
    | none => new) row

/-- Changes rows of a table, in order. -/
def changeAll (t : Table) (slots : List Datum) (changes : List (String × Expr)) :
    List Numbered → Except Problem (Table × List Numbered)
  | [] => .ok (t, [])
  | old :: olds => do
    let (t, r) ← t.replaceRow old (changed t slots changes old.data)
    let (t, rs) ← changeAll t slots changes olds
    .ok (t, r :: rs)

/-- Whether one row comes before another or with it, by terms of an order. -/
def comesBefore : List (Bool × Datum × Datum) → Bool
  | [] => true
  | (descending, x, y) :: rest =>
    match if descending then y.order x else x.order y with
    | .lt => true
    | .gt => false
    | .eq => comesBefore rest

/-- The rows that a selection gives. -/
def selected (columns : List Column) (rows : List (List Datum)) (slots : List Datum)
    (items : List Item) (condition : Option Expr) (order : List OrderTerm) : List (List Datum) :=
  let kept := rows.filter (holds columns slots condition)
  if (items.flatMap (Item.exprs columns)).any Expr.counts then
    [project columns slots items kept.length (kept.getLast?.getD [])]
  else
    let terms := order.map fun o => (o.descending, orderExpr items o.expr)
    let keyed := kept.map fun row =>
      (terms.map fun (d, e) => (d, e.eval ⟨columns, row, slots, 0⟩), row)
    let before (a b : List (Bool × Datum) × List Datum) : Bool :=
      comesBefore ((a.1.zip b.1).map fun (x, y) => (x.1, x.2, y.2))
    (keyed.mergeSort before).map fun k => project columns slots items 0 k.2

def written (db : Database) (t : Table) (slots : List Datum) (items : List Item)
    (rows : List Numbered) : Effect :=
  ⟨db.replace t, rows.length,
    if items.isEmpty then [] else rows.map fun r => project t.columns slots items 0 r.data⟩

/-- The effect of a statement with data for its slots. The references are not looked at. -/
def Statement.effect (db : Database) (slots : List Datum) : Statement → Except Problem Effect
  | .nothing => .error .nothingToRun
  | .start | .commit | .rollback => .ok ⟨db, 0, []⟩
  | .create table _ columns =>
    .ok ⟨if (db.find? table).isSome then db else db ++ [⟨table, columns, []⟩], 0, []⟩
  | .insert table names rows items => do
    let t ← tableOf db table
    let (t, rs) ← putAll t (rows.map fun es => spread t names (evalAll ⟨[], [], slots, 0⟩ es))
    .ok (written db t slots items rs)
  | .update table changes condition items => do
    let t ← tableOf db table
    let (t, rs) ← changeAll t slots changes (t.rows.filter (holds t.columns slots condition ·.data))
    .ok (written db t slots items rs)
  | .delete table condition items => do
    let t ← tableOf db table
    let rs := t.rows.filter (holds t.columns slots condition ·.data)
    .ok (written db (t.drop (rs.map (·.number))) slots items rs)
  | .select items table condition order =>
    let (columns, rows) := match table.bind db.find? with
      | some t => (t.columns, t.rows.map (·.data))
      | none => ([], [[]])
    .ok ⟨db, 0, selected columns rows slots items condition order⟩

/-- The table that a statement puts rows into, changes or takes rows out of. -/
def Statement.target? : Statement → Option String
  | .insert table .. | .update table .. | .delete table .. => some table
  | _ => none

end SqlTemplate.Sql
