import SqlTemplate.Value
/-!
Data as a database holds them: how they are ordered, what they are worth as numbers and as truth
values, and the affinity of a column, which turns what is stored in it or compared with it to its
own kind where nothing is lost.
-/

namespace SqlTemplate.Sql

/-- A datum. A text is its bytes, because not all of them need to be UTF-8. -/
inductive Datum where
  | null
  | int (i : Int64)
  | real (x : Binary64)
  | text (bytes : List UInt8)
  | blob (bytes : List UInt8)
  deriving DecidableEq, Inhabited

/-- The kind of data that a column prefers. -/
inductive Affinity where
  | none
  | integer
  | real
  | text
  | numeric
  deriving DecidableEq, Repr

/-- Real numbers in texts have a point; from 10^15 on and below 10^-4 they have an exponent. -/
def realSpelling : Spelling where
  plainFrom := some (-4)
  plainUpTo := some 14
  pointZero := true
  evenTie := true

/-- How two lists of bytes are ordered: at the first difference, or the shorter first. -/
def compareBytes : List UInt8 → List UInt8 → Ordering
  | [], [] => .eq
  | [], _ :: _ => .lt
  | _ :: _, [] => .gt
  | a :: as, b :: bs => (compare a b).then (compareBytes as bs)

def Datum.ofInt (i : Int) : Datum :=
  if isInt64 i then .int (Int64.ofInt i) else .real (.ofInt i)

/-- The number that a text spells from beginning to end. -/
def numeral? (cs : List Char) : Option Datum :=
  let core := Text.trim cs
  let (negative, digits) := Numeral.sign core
  if !digits.isEmpty && digits.all Numeral.isDigit then
    some (.ofInt (if negative then -(Numeral.value digits : Int) else Numeral.value digits))
  else (Numeral.float? core).map .real

namespace Datum

/-- The place of a kind in the order of all data. -/
def rank : Datum → Nat
  | .null => 0
  | .int _ | .real _ => 1
  | .text _ => 2
  | .blob _ => 3

/-- The place of a number on the number line, in units. -/
def place : Datum → Int
  | .int i => i.toInt * (Binary64.one : Int)
  | .real x => x.position?.getD 0
  | _ => 0

def bytes : Datum → List UInt8
  | .text bs | .blob bs => bs
  | _ => []

/-- The order of data: null, numbers by their value, texts by their bytes, blobs by theirs. -/
def order (a b : Datum) : Ordering :=
  ((compare a.rank b.rank).then (compare a.place b.place)).then (compareBytes a.bytes b.bytes)

/-- The number that a datum is worth; a text that spells none is worth zero. -/
def number : Datum → Datum
  | .text bs | .blob bs => (numeral? (Text.lossy bs)).getD (.int 0)
  | d => d

/-- Whether a datum holds: null is neither true nor false, and a number is true unless it is
zero. -/
def truth? (d : Datum) : Option Bool :=
  match d.number with
  | .int i => some (i != 0)
  | .real x => some (!x.isZero)
  | _ => none

def ofTruth : Option Bool → Datum
  | none => .null
  | some b => .int (if b then 1 else 0)

/-- The bytes of a datum as text; null has none. -/
def textBytes? : Datum → Option (List UInt8)
  | .null => none
  | .int i => some (Text.encode (integerText i.toInt).toList)
  | .real x => some (Text.encode (realSpelling.write x))
  | .text bs | .blob bs => some bs

def textual (d : Datum) : Datum :=
  match d with
  | .int _ | .real _ => (d.textBytes?.map .text).getD d
  | d => d

def numeric (d : Datum) : Datum :=
  match d with
  | .text bs => (numeral? (Text.lossy bs)).getD d
  | d => d

/-- A whole real number as an integer. -/
def wholeAsInt (d : Datum) : Datum :=
  match d with
  | .real x =>
    match x.integer? with
    | some i =>
      if Int64.minValue.toInt < i && i < Int64.maxValue.toInt then .int (Int64.ofInt i) else d
    | none => d
  | d => d

def intAsReal (d : Datum) : Datum :=
  match d with
  | .int i => .real (.ofInt i.toInt)
  | d => d

end Datum

/-- The datum as a column of the affinity stores it. -/
def Affinity.store (a : Affinity) (d : Datum) : Datum :=
  match a with
  | .none => d
  | .text => d.textual
  | .integer | .numeric => d.numeric.wholeAsInt
  | .real => d.numeric.wholeAsInt.intAsReal

def Affinity.isNumeric : Affinity → Bool
  | .integer | .real | .numeric => true
  | _ => false

/-- Two data as they are compared: a numeric affinity on one side makes numbers of texts on the
other, and else a text affinity on one side makes texts of numbers on the other. -/
def alike (a b : Affinity) (x y : Datum) : Datum × Datum :=
  if a.isNumeric && !b.isNumeric then (x, y.numeric)
  else if b.isNumeric && !a.isNumeric then (x.numeric, y)
  else if a = .text && b = .none then (x, y.textual)
  else if b = .text && a = .none then (x.textual, y)
  else (x, y)

/-- How two data compare; null compares with nothing. -/
def compareAs? (a b : Affinity) (x y : Datum) : Option Ordering :=
  if x = .null || y = .null then none
  else
    let (x, y) := alike a b x y
    some (x.order y)

/-- The datum as a cast to the affinity gives it. -/
def Affinity.cast (a : Affinity) (d : Datum) : Datum :=
  match a, d with
  | _, .null => .null
  | .text, d => (d.textBytes?.map .text).getD d
  | .none, d => (d.textBytes?.map .blob).getD d
  | .numeric, d => d.number.wholeAsInt
  | .real, d => d.number.intAsReal
  | .integer, d =>
    match d.number with
    | .real (.finite negative units _) =>
      .int (Int64.saturating (Binary64.signed negative (units / Binary64.one)))
    | .real (.infinite negative) => .int (if negative then Int64.minValue else Int64.maxValue)
    | d => d

/-- The datum as it is kept: what is no number is null. -/
def Datum.kept : Datum → Datum
  | .real x => if x.isNaN then .null else .real x
  | d => d

end SqlTemplate.Sql
