import SqlTemplate.Sql.Statement
/-!
What expressions refer to and what they are worth. `Expr.check` finds the first name that means
nothing; an expression that passes has a value in every row.
-/

namespace SqlTemplate.Sql

def findColumn? (columns : List Column) (name : String) : Option (Nat × Column) :=
  ((columns.zipIdx).find? fun c => Engine.sameName c.1.name name).map fun c => (c.2, c.1)

mutual

/-- Every column and every function of an expression is known; else the problem is about the first
column that is not, or about the function around it. -/
def Expr.check (columns : List Column) : Expr → Except Problem Unit
  | .datum _ | .slot _ | .countAll => .ok ()
  | .column name place =>
    if (findColumn? columns name).isSome then .ok () else .error (.noColumn name place)
  | .call name place args =>
    match checkAll columns args with
    | .error p => .error p
    | .ok () => .error (.noFunction name place)
  | .not e | .minus e | .plus e | .cast _ e => Expr.check columns e
  | .binary _ l r =>
    match Expr.check columns l with
    | .error p => .error p
    | .ok () => Expr.check columns r
  | .among e items =>
    match Expr.check columns e with
    | .error p => .error p
    | .ok () => checkAll columns items

/-- The check of expressions from left to right. -/
def checkAll (columns : List Column) : List Expr → Except Problem Unit
  | [] => .ok ()
  | e :: es =>
    match Expr.check columns e with
    | .error p => .error p
    | .ok () => checkAll columns es

end

mutual

/-- Whether an expression counts rows. -/
def Expr.counts : Expr → Bool
  | .countAll => true
  | .datum _ | .slot _ | .column _ _ => false
  | .call _ _ args => anyCounts args
  | .not e | .minus e | .plus e | .cast _ e => Expr.counts e
  | .binary _ l r => Expr.counts l || Expr.counts r
  | .among e items => Expr.counts e || anyCounts items

def anyCounts : List Expr → Bool
  | [] => false
  | e :: es => Expr.counts e || anyCounts es

end

/-- What an expression is evaluated in: the columns with the row that it is about, the data of the
slots, and the number of rows where rows are counted. -/
structure Scope where
  columns : List Column
  row : List Datum
  slots : List Datum
  count : Nat

/-- The affinity that an expression has in a comparison. A sign in front of a column takes it away. -/
def Expr.affinity (columns : List Column) : Expr → Affinity
  | .column name _ => ((findColumn? columns name).map fun c => c.2.affinity).getD .none
  | .cast a _ => a
  | _ => .none

/-- An operation on numbers: on integers if the result fits, else on real numbers. -/
def arithmetic (onInts : Int → Int → Int) (onReals : Binary64 → Binary64 → Binary64)
    (x y : Datum) : Datum :=
  match x.number, y.number with
  | .int a, .int b =>
    let c := onInts a.toInt b.toInt
    if isInt64 c then .int (Int64.ofInt c) else realOf (onReals (.ofInt a.toInt) (.ofInt b.toInt))
  | .int a, .real y => realOf (onReals (.ofInt a.toInt) y)
  | .real x, .int b => realOf (onReals x (.ofInt b.toInt))
  | .real x, .real y => realOf (onReals x y)
  | _, _ => .null
where
  /-- A real number, null if it is none. -/
  realOf (x : Binary64) : Datum := if x.isNaN then .null else .real x

/-- The sum of two numbers, rounded. -/
def plus (x y : Binary64) : Binary64 :=
  match x, y with
  | .finite s a _, .finite t b _ =>
    let sum := Binary64.signed s a + Binary64.signed t b
    .ofRatio (decide (sum < 0)) sum.natAbs Binary64.one
  | .nan, _ | _, .nan => .nan
  | .infinite s, .infinite t => if s = t then .infinite s else .nan
  | .infinite s, _ | _, .infinite s => .infinite s

/-- The truth of a conjunction: one false operand decides it. -/
def both : Option Bool → Option Bool → Option Bool
  | some false, _ | _, some false => some false
  | some true, some true => some true
  | _, _ => none

/-- The truth of a disjunction: one true operand decides it. -/
def either : Option Bool → Option Bool → Option Bool
  | some true, _ | _, some true => some true
  | some false, some false => some false
  | _, _ => none

/-- The datum of an operator between two data with their affinities. -/
def Operator.apply (op : Operator) (a b : Affinity) (x y : Datum) : Datum :=
  let compared (holds : Ordering → Bool) := Datum.ofTruth ((compareAs? a b x y).map holds)
  let same := (x = .null && y = .null) || compareAs? a b x y = some .eq
  match op with
  | .or => .ofTruth (either x.truth? y.truth?)
  | .and => .ofTruth (both x.truth? y.truth?)
  | .eq => compared (· == .eq)
  | .ne => compared (· != .eq)
  | .lt => compared (· == .lt)
  | .le => compared (· != .gt)
  | .gt => compared (· == .gt)
  | .ge => compared (· != .lt)
  | .same => .ofTruth (some same)
  | .notSame => .ofTruth (some !same)
  | .add => arithmetic (· + ·) plus x y
  | .sub => arithmetic (· - ·) (fun x y => plus x y.neg) x y
  | .mul => arithmetic (· * ·) .times x y
  | .concat =>
    match x.textBytes?, y.textBytes? with
    | some a, some b => .text (a ++ b)
    | _, _ => .null

/-- The membership of a datum among data: null where only a null could make it true. -/
def member (a : Affinity) (x : Datum) (ys : List Datum) : Datum :=
  if ys.isEmpty then .int 0
  else if ys.any fun y => compareAs? a .none x y = some .eq then .int 1
  else if x = .null || ys.contains .null then .null
  else .int 0

mutual

/-- The datum of an expression. -/
def Expr.eval (s : Scope) : Expr → Datum
  | .datum d => d
  | .slot n => (s.slots[n - 1]?).getD .null
  | .column name _ => ((findColumn? s.columns name).bind fun c => s.row[c.1]?).getD .null
  | .countAll => .ofInt s.count
  | .call .. => .null
  | .not e => .ofTruth ((Expr.eval s e).truth?.map (!·))
  | .minus e => Operator.sub.apply .none .none (.int 0) (Expr.eval s e)
  | .plus e => Expr.eval s e
  | .binary op l r =>
    op.apply (l.affinity s.columns) (r.affinity s.columns) (Expr.eval s l) (Expr.eval s r)
  | .among e items => member (e.affinity s.columns) (Expr.eval s e) (evalAll s items)
  | .cast a e => a.cast (Expr.eval s e)

def evalAll (s : Scope) : List Expr → List Datum
  | [] => []
  | e :: es => Expr.eval s e :: evalAll s es

end

end SqlTemplate.Sql
