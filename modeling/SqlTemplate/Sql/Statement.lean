import SqlTemplate.Sql.Adapter
import SqlTemplate.Sql.Lexeme
/-!
SQL statements as trees, and the problems for which one is refused. A problem that is about a place
in the text says so after the text itself; it has no code of its own.
-/

namespace SqlTemplate.Sql

/-- Operators between two operands. -/
inductive Operator where
  | or
  | and
  | eq
  | ne
  | lt
  | le
  | gt
  | ge
  | same
  | notSame
  | add
  | sub
  | mul
  | concat
  deriving DecidableEq, Repr

/-- Expressions. A column and a function keep the byte at which their name stands; a slot has its
number. -/
inductive Expr where
  | datum (d : Datum)
  | slot (number : Nat)
  | column (name : String) (place : Nat)
  | countAll
  | call (name : String) (place : Nat) (args : List Expr)
  | not (e : Expr)
  | minus (e : Expr)
  | plus (e : Expr)
  | binary (op : Operator) (l r : Expr)
  | among (e : Expr) (items : List Expr)
  | cast (a : Affinity) (e : Expr)
  deriving Inhabited

/-- What a row of an answer is made of: every column, or an expression with its label, if it has
one, and its text. -/
inductive Item where
  | all
  | expr (e : Expr) (label : Option String) (source : String)

/-- A reference to a column of a table, the key of it if none is named. A deferred one is checked
at the end of a transaction. -/
structure Reference where
  table : String
  column : Option String
  deferred : Bool
  deriving DecidableEq, Repr

/-- A column of a table: its name, its affinity and its constraints. A column that numbers the rows
is the integer key. -/
structure Column where
  name : String
  affinity : Affinity
  isNumber : Bool
  isKey : Bool
  isUnique : Bool
  isRequired : Bool
  references : List Reference
  deriving DecidableEq, Repr

structure OrderTerm where
  expr : Expr
  descending : Bool

/-- Statements. One without any text does nothing. -/
inductive Statement where
  | nothing
  | create (table : String) (ifAbsent : Bool) (columns : List Column)
  | insert (table : String) (columns : Option (List String)) (rows : List (List Expr))
      (returning : List Item)
  | update (table : String) (changes : List (String × Expr)) (condition : Option Expr)
      (returning : List Item)
  | delete (table : String) (condition : Option Expr) (returning : List Item)
  | select (items : List Item) (table : Option String) (condition : Option Expr)
      (order : List OrderTerm)
  | start
  | commit
  | rollback

/-- Why a statement is refused, before it runs or while it does. -/
inductive Problem where
  | near (word : String) (place : Nat)
  | unrecognized (word : String) (place : Nat)
  | slotRange (place : Nat)
  | noColumn (name : String) (place : Nat)
  | noFunction (name : String) (place : Nat)
  | tableExists (name : String) (place : Nat)
  | incomplete
  | noTable (name : String)
  | noTarget (column : String)
  | noField (table column : String)
  | width (table : String) (columns values : Nat)
  | listWidth (columns values : Nat)
  | unevenRows
  | noSource
  | duplicateColumn (name : String)
  | manyKeys (table : String)
  | keyMismatch (child parent : String)
  | nullFailed (table column : String)
  | uniqueFailed (table column : String) (isKey : Bool)
  | keyFailed
  | notNumber
  | startInside
  | commitOutside
  | rollbackOutside
  | nothingToRun
  deriving DecidableEq, Repr

namespace Problem

/-- The words for a problem. -/
def message : Problem → String
  | .near word _ => "near \"" ++ word ++ "\": syntax error"
  | .unrecognized word _ => "unrecognized token: \"" ++ word ++ "\""
  | .slotRange _ => "variable number must be between ?1 and ?" ++ toString maxSlot
  | .noColumn name _ => "no such column: " ++ name
  | .noFunction name _ => "no such function: " ++ name
  | .tableExists name _ => "table " ++ name ++ " already exists"
  | .incomplete => "incomplete input"
  | .noTable name => "no such table: " ++ name
  | .noTarget column => "no such column: " ++ column
  | .noField table column => "table " ++ table ++ " has no column named " ++ column
  | .width table columns values =>
    "table " ++ table ++ " has " ++ toString columns ++ " columns but " ++ toString values ++
      " values were supplied"
  | .listWidth columns values => toString values ++ " values for " ++ toString columns ++ " columns"
  | .unevenRows => "all VALUES must have the same number of terms"
  | .noSource => "no tables specified"
  | .duplicateColumn name => "duplicate column name: " ++ name
  | .manyKeys table => "table \"" ++ table ++ "\" has more than one primary key"
  | .keyMismatch child parent =>
    "foreign key mismatch - \"" ++ child ++ "\" referencing \"" ++ parent ++ "\""
  | .nullFailed table column => "NOT NULL constraint failed: " ++ table ++ "." ++ column
  | .uniqueFailed table column _ => "UNIQUE constraint failed: " ++ table ++ "." ++ column
  | .keyFailed => "FOREIGN KEY constraint failed"
  | .notNumber => "datatype mismatch"
  | .startInside => "cannot start a transaction within a transaction"
  | .commitOutside => "cannot commit - no transaction is active"
  | .rollbackOutside => "cannot rollback - no transaction is active"
  | .nothingToRun => "not an error"

def place? : Problem → Option Nat
  | .near _ place | .unrecognized _ place | .slotRange place | .noColumn _ place
  | .noFunction _ place | .tableExists _ place => some place
  | _ => none

/-- The code of a problem. -/
def code : Problem → Int
  | .nullFailed .. => 1299
  | .uniqueFailed _ _ isKey => if isKey then 1555 else 2067
  | .keyFailed => 787
  | .notNumber => 20
  | .nothingToRun => 21
  | _ => 1

end Problem

/-- The failure that a problem with a text is. One about a place in the text has no code, and its
words repeat the text. -/
def Problem.failure (p : Problem) (sql : String) : Failure :=
  match p.place? with
  | some place => ⟨none, p.message ++ " in " ++ sql ++ " at offset " ++ toString place, false⟩
  | none => ⟨some p.code, p.message, false⟩

end SqlTemplate.Sql
