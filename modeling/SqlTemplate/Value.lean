import SqlTemplate.Dict
import SqlTemplate.Number.Integer
import SqlTemplate.Number.Shortest
import SqlTemplate.Text.Blank
import SqlTemplate.Text.Utf8
/-!
Values: what variables hold and parameters carry, the views that conditions take of them (truth,
number, text) and the text that shows one to a reader.
-/

namespace SqlTemplate

/-- A loosely typed value. A sequence backs a placeholder that expands. -/
inductive Value where
  | null
  | bool (b : Bool)
  | int (i : Int64)
  | float (x : Binary64)
  | text (s : String)
  | bytes (bs : List UInt8)
  | seq (items : List Value)
  deriving Inhabited

/-- The values that variables hold, by name. -/
abbrev Context := Dict String Value

/-- How many placeholders an expansion yields, by its name. -/
abbrev Repeats := Dict String Nat

/-- What kinds of value a parameter may be bound to in turn. -/
inductive Family where
  | bool
  | number
  | text
  | bytes
  deriving DecidableEq, Repr

def Family.name : Family → String
  | .bool => "bool"
  | .number => "number"
  | .text => "text"
  | .bytes => "bytes"

/-- The number that a text denotes where it is compared: white space around it is allowed, and it
is made of digits, points, signs and the letter e only, so that it spells no infinity. -/
def Numeral.finite? (cs : List Char) : Option Binary64 :=
  let core := Text.trim cs
  if core.isEmpty ||
      !core.all (fun c =>
        Numeral.isDigit c || c == '.' || c == '-' || c == '+' || c == 'e' || c == 'E')
  then none
  else (Numeral.float? core).filter Binary64.isFinite

/-- Numbers in conditions and texts have no exponent, and a whole one no point. -/
def Spelling.positional : Spelling where
  plainFrom := none
  plainUpTo := none
  pointZero := false
  evenTie := false

/-- A whole number below 10^15 in magnitude is written as an integer, so that negative zero has no
sign; every other number positionally. -/
def Binary64.text (x : Binary64) : String :=
  match x.integer? with
  | some i =>
    if i.natAbs < Nat.pow 10 15 then integerText i else String.ofList (Spelling.positional.write x)
  | none => String.ofList (Spelling.positional.write x)

namespace Value

def isNull : Value → Bool
  | .null => true
  | _ => false

/-- Whether a condition that is left implicit counts the value as present: it is not null, and not
empty if it is a text or a sequence. -/
def isGiven : Value → Bool
  | .null => false
  | .text s => !s.isEmpty
  | .seq items => !items.isEmpty
  | _ => true

/-- The truth of a value: null, zero, what is no number and all that is empty are false. -/
def truthy : Value → Bool
  | .null => false
  | .bool b => b
  | .int i => i != 0
  | .float x => !x.isZero && !x.isNaN
  | .text s => !s.isEmpty
  | .bytes bs => !bs.isEmpty
  | .seq items => !items.isEmpty

/-- The number that a value is compared as, if it is a number, a truth value or the text of a
finite number. -/
def number? : Value → Option Binary64
  | .int i => some (.ofInt i.toInt)
  | .float x => some x
  | .bool b => some (.ofInt (if b then 1 else 0))
  | .text s => Numeral.finite? s.toList
  | _ => none

/-- The text that a value is compared as; a sequence gives that of its first item. -/
def asText : Value → String
  | .null => ""
  | .bool b => if b then "true" else "false"
  | .int i => integerText i.toInt
  | .float x => x.text
  | .text s => s
  | .bytes bs => String.ofList (Text.lossy bs)
  | .seq [] => ""
  | .seq (item :: _) => asText item

/-- The family of a value; null and sequences have none. -/
def family? : Value → Option Family
  | .null | .seq _ => none
  | .bool _ => some .bool
  | .int _ | .float _ => some .number
  | .text _ => some .text
  | .bytes _ => some .bytes

/-- The 64-bit integer of an integer or of a whole number, one beyond the range moved to its
nearer end. -/
def int? : Value → Option Int64
  | .int i => some i
  | .float x => x.integer?.map Int64.saturating
  | _ => none

def text? : Value → Option String
  | .text s => some s
  | _ => none

def seq? : Value → Option (List Value)
  | .seq items => some items
  | _ => none

mutual

/-- The value as shown to a reader: texts in quotes, bytes by their number, sequences in
brackets. -/
def display : Value → String
  | .null => "null"
  | .text s => "'" ++ s ++ "'"
  | .bytes bs => "<" ++ toString bs.length ++ " bytes>"
  | .seq items => "[" ++ displayItems items ++ "]"
  | .bool b => if b then "true" else "false"
  | .int i => integerText i.toInt
  | .float x => x.text

def displayItems : List Value → String
  | [] => ""
  | [item] => display item
  | item :: rest => display item ++ ", " ++ displayItems rest

end

def ofOption : Option Value → Value
  | none => .null
  | some v => v

end Value

end SqlTemplate
