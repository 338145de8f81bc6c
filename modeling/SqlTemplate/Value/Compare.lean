import SqlTemplate.Value
/-!
Loose comparison. Sequences are compared item by item, and some pair of items has to satisfy the
operator; null satisfies none. Two numbers, or texts that denote numbers, are compared as numbers,
all else as text.
-/

namespace SqlTemplate

/-- A relational operator. -/
inductive RelOp where
  | eq
  | ne
  | lt
  | le
  | gt
  | ge
  deriving DecidableEq, Repr

namespace RelOp

/-- How the operator is written. -/
def symbol : RelOp → String
  | .eq => "="
  | .ne => "!="
  | .lt => "<"
  | .le => "<="
  | .gt => ">"
  | .ge => ">="

/-- Whether the operator holds of two things ordered so. -/
def holds : RelOp → Ordering → Bool
  | .eq, o => o == .eq
  | .ne, o => o != .eq
  | .lt, o => o == .lt
  | .le, o => o != .gt
  | .gt, o => o == .gt
  | .ge, o => o != .lt

def isEquality : RelOp → Bool
  | .eq | .ne => true
  | _ => false

/-- The operator with its sides exchanged. -/
def mirror : RelOp → RelOp
  | .eq => .eq
  | .ne => .ne
  | .lt => .gt
  | .le => .ge
  | .gt => .lt
  | .ge => .le

end RelOp

namespace Value

mutual

/-- Whether some leaf of the value satisfies `p`: a sequence has the leaves of its items, every
other value is its own leaf. -/
def anyLeaf (p : Value → Bool) : Value → Bool
  | .seq items => anyLeafOf p items
  | v => p v

def anyLeafOf (p : Value → Bool) : List Value → Bool
  | [] => false
  | item :: rest => anyLeaf p item || anyLeafOf p rest

end

def eitherBool : Value → Value → Bool
  | .bool _, _ | _, .bool _ => true
  | _, _ => false

/-- Compares two values that are no sequences. Truth values are told equal from different by
truth; their order is that of numbers. -/
def compareLeaves (op : RelOp) (x y : Value) : Bool :=
  if x.isNull || y.isNull then false
  else if eitherBool x y && op.isEquality then op.holds (compare x.truthy y.truthy)
  else
    match x.number?, y.number? with
    | some a, some b =>
      match a.compare? b with
      | some o => op.holds o
      | none => false
    | _, _ => op.holds (compare x.asText y.asText)

/-- Whether the operator holds of two values. -/
def compare (op : RelOp) (lhs rhs : Value) : Bool :=
  anyLeaf (fun x => anyLeaf (compareLeaves op x) rhs) lhs

end Value

end SqlTemplate
