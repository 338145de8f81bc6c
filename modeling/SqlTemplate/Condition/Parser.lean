import SqlTemplate.Condition.Token
import SqlTemplate.Text.Utf8
/-!
Reading conditions. Disjunction binds loosest, then conjunction, then at most one relational
operator; negation takes its operand in parentheses. Each reader hands on the lexemes that it left,
and a reader of a condition leaves fewer than it was given.
-/

namespace SqlTemplate.Condition

abbrev Fewer (ts : List Placed) := { r : List Placed // r.length < ts.length }

abbrev NoMore (ts : List Placed) := { r : List Placed // r.length ≤ ts.length }

def expect (expected : Token) (fault : Fault) (ts : List Placed) :
    Except Failure (Fewer ts) :=
  match ts with
  | [] => .error ⟨fault, []⟩
  | t :: r => if t.token = expected then .ok ⟨r, by simp⟩ else .error ⟨fault, t.here⟩

mutual

/-- Conditions joined by `or`. -/
def disjunction (ts : List Placed) : Except Failure (Condition × Fewer ts) :=
  match conjunction ts with
  | .error e => .error e
  | .ok (c, ⟨r, h⟩) =>
    match disjuncts c r with
    | .error e => .error e
    | .ok (d, ⟨r', h'⟩) => .ok (d, ⟨r', Nat.lt_of_le_of_lt h' h⟩)
termination_by 4 * ts.length + 3

/-- The disjuncts that follow `lhs`. -/
def disjuncts (lhs : Condition) (ts : List Placed) : Except Failure (Condition × NoMore ts) :=
  match ts with
  | [] => .ok (lhs, ⟨[], Nat.le_refl _⟩)
  | t :: r =>
    if t.token = .disjunction then
      match conjunction r with
      | .error e => .error e
      | .ok (c, ⟨r', h⟩) =>
        match disjuncts (.either lhs c) r' with
        | .error e => .error e
        | .ok (d, ⟨r'', h'⟩) => .ok (d, ⟨r'', by simp only [List.length_cons]; omega⟩)
    else .ok (lhs, ⟨t :: r, Nat.le_refl _⟩)
termination_by 4 * ts.length

/-- Conditions joined by `and`. -/
def conjunction (ts : List Placed) : Except Failure (Condition × Fewer ts) :=
  match comparison ts with
  | .error e => .error e
  | .ok (c, ⟨r, h⟩) =>
    match conjuncts c r with
    | .error e => .error e
    | .ok (d, ⟨r', h'⟩) => .ok (d, ⟨r', Nat.lt_of_le_of_lt h' h⟩)
termination_by 4 * ts.length + 2

/-- The conjuncts that follow `lhs`. -/
def conjuncts (lhs : Condition) (ts : List Placed) : Except Failure (Condition × NoMore ts) :=
  match ts with
  | [] => .ok (lhs, ⟨[], Nat.le_refl _⟩)
  | t :: r =>
    if t.token = .conjunction then
      match comparison r with
      | .error e => .error e
      | .ok (c, ⟨r', h⟩) =>
        match conjuncts (.both lhs c) r' with
        | .error e => .error e
        | .ok (d, ⟨r'', h'⟩) => .ok (d, ⟨r'', by simp only [List.length_cons]; omega⟩)
    else .ok (lhs, ⟨t :: r, Nat.le_refl _⟩)
termination_by 4 * ts.length

/-- An operand, or two with a relational operator between them. -/
def comparison (ts : List Placed) : Except Failure (Condition × Fewer ts) :=
  match operand ts with
  | .error e => .error e
  | .ok (lhs, ⟨[], h⟩) => .ok (lhs, ⟨[], h⟩)
  | .ok (lhs, ⟨t :: r, h⟩) =>
    match t.token with
    | .op o =>
      match operand r with
      | .error e => .error e
      | .ok (rhs, ⟨r', h'⟩) =>
        .ok (.relates o lhs rhs, ⟨r', by simp only [List.length_cons] at h; omega⟩)
    | _ => .ok (lhs, ⟨t :: r, h⟩)
termination_by 4 * ts.length + 1
decreasing_by
  · omega
  · simp only [List.length_cons] at h; omega

/-- A variable, a literal, a negation or a condition in parentheses. -/
def operand (ts : List Placed) : Except Failure (Condition × Fewer ts) :=
  match ts with
  | [] => .error ⟨.endOfText, []⟩
  | t :: r =>
    match t.token with
    | .var name => .ok (.var name, ⟨r, by simp⟩)
    | .number x => .ok (.number x, ⟨r, by simp⟩)
    | .text s => .ok (.text s, ⟨r, by simp⟩)
    | .negation =>
      match expect .opening .notWithoutParenthesis r with
      | .error e => .error e
      | .ok ⟨r1, h1⟩ =>
        match disjunction r1 with
        | .error e => .error e
        | .ok (c, ⟨r2, h2⟩) =>
          match expect .closing .openNegation r2 with
          | .error e => .error e
          | .ok ⟨r3, h3⟩ => .ok (.neg c, ⟨r3, by simp only [List.length_cons]; omega⟩)
    | .opening =>
      match disjunction r with
      | .error e => .error e
      | .ok (c, ⟨r1, h1⟩) =>
        match expect .closing .openParenthesis r1 with
        | .error e => .error e
        | .ok ⟨r2, h2⟩ => .ok (c, ⟨r2, by simp only [List.length_cons]; omega⟩)
    | _ => .error ⟨.noOperand, t.here⟩
termination_by 4 * ts.length

end

def ofTokens (ts : List Placed) : Except Failure Condition :=
  match disjunction ts with
  | .error e => .error e
  | .ok (c, ⟨[], _⟩) => .ok c
  | .ok (_, ⟨t :: _, _⟩) => .error ⟨.trailing, t.here⟩

def read (cs : List Char) : Except Failure Condition := (tokens cs).bind ofTokens

/-- The place of a failure as the number of bytes before it. -/
def Failure.offset (e : Failure) (source : List Char) : Nat :=
  Text.byteLength source - Text.byteLength e.here

end SqlTemplate.Condition
