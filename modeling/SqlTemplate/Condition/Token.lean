import SqlTemplate.Condition
import SqlTemplate.Text.Search
/-!
The lexemes of conditions: variables, numbers, texts in quotes, the words `and`, `or` and `not`,
parentheses and relational operators. A token remembers the source from its first character on,
which is where a fault in it is reported.
-/

namespace SqlTemplate.Condition

/-- What can be wrong with the text of a condition. -/
inductive Fault where
  | loneExclamation
  | openText
  | namelessVariable
  | badNumber
  | unknownWord
  | strayCharacter
  | trailing
  | endOfText
  | noOperand
  | notWithoutParenthesis
  | openNegation
  | openParenthesis
  deriving DecidableEq, Repr

/-- The words for a fault. -/
def Fault.message : Fault → String
  | .loneExclamation => "expected '!='"
  | .openText => "unterminated text literal"
  | .namelessVariable => "expected variable name after '$'"
  | .badNumber => "invalid numeric literal"
  | .unknownWord => "unknown keyword"
  | .strayCharacter => "unexpected character"
  | .trailing => "unexpected trailing input"
  | .endOfText => "unexpected end of expression"
  | .noOperand => "expected operand"
  | .notWithoutParenthesis => "expected '(' after not"
  | .openNegation => "expected ')' to close not("
  | .openParenthesis => "expected ')'"

structure Failure where
  fault : Fault
  here : List Char
  deriving DecidableEq, Repr

/-- A lexeme. -/
inductive Token where
  | var (name : String)
  | number (x : Binary64)
  | text (s : String)
  | conjunction
  | disjunction
  | negation
  | opening
  | closing
  | op (o : RelOp)
  deriving DecidableEq

/-- A lexeme and the source from its first character on. -/
structure Placed where
  token : Token
  here : List Char

def isSpace (c : Char) : Bool := c == ' ' || c == '\t' || c == '\r' || c == '\n'

def isLetter (c : Char) : Bool := ('a' ≤ c && c ≤ 'z') || ('A' ≤ c && c ≤ 'Z')

def isNameChar (c : Char) : Bool := isLetter c || Numeral.isDigit c || c == '_'

theorem visible_of_isNameChar {c : Char} (h : isNameChar c = true) :
    0x21 ≤ c.toNat ∧ c.toNat ≤ 0x7E := by
  have between {low high : Char} (h₁ : low ≤ c) (h₂ : c ≤ high) :
      low.toNat ≤ c.toNat ∧ c.toNat ≤ high.toNat := ⟨h₁, h₂⟩
  simp only [isNameChar, isLetter, Numeral.isDigit, Bool.or_eq_true, Bool.and_eq_true,
    decide_eq_true_eq, beq_iff_eq] at h
  rcases h with ((⟨h₁, h₂⟩ | ⟨h₁, h₂⟩) | ⟨h₁, h₂⟩) | rfl
  · have : 0x61 ≤ c.toNat ∧ c.toNat ≤ 0x7A := between h₁ h₂
    omega
  · have : 0x41 ≤ c.toNat ∧ c.toNat ≤ 0x5A := between h₁ h₂
    omega
  · have : 0x30 ≤ c.toNat ∧ c.toNat ≤ 0x39 := between h₁ h₂
    omega
  · decide

def isNumberChar (c : Char) : Bool := Numeral.isDigit c || c == '.'

def word? (w : List Char) : Option Token :=
  if w = ['a', 'n', 'd'] then some .conjunction
  else if w = ['o', 'r'] then some .disjunction
  else if w = ['n', 'o', 't'] then some .negation
  else none

abbrev Remaining (cs : List Char) := { r : List Char // r.length ≤ cs.length }

/-- The longest run of characters of a class, and what follows it. -/
def run (p : Char → Bool) (cs : List Char) : List Char × Remaining cs :=
  (cs.takeWhile p, ⟨cs.dropWhile p, Text.length_dropWhile_le p cs⟩)

def Remaining.all (cs : List Char) : Remaining cs := ⟨cs, Nat.le_refl _⟩

def extended (short long : RelOp) (cs : List Char) : Token × Remaining cs :=
  match cs with
  | '=' :: r => (.op long, ⟨r, by simp⟩)
  | cs => (.op short, .all cs)

/-- The text between the quote `q`, which has been read, and the next one. -/
def quotedText (q : Char) (cs : List Char) : Except Fault (Token × Remaining cs) :=
  match h : Text.cutAt? [q] cs with
  | some (s, rest) => .ok (.text (String.ofList s), ⟨rest, Text.length_cutAt? h⟩)
  | none => .error .openText

def variableAfter (cs : List Char) : Except Fault (Token × Remaining cs) :=
  let (name, rest) := run isNameChar cs
  if name.isEmpty then .error .namelessVariable else .ok (.var (String.ofList name), rest)

def startsNumber (c : Char) : Bool := Numeral.isDigit c || c = '.' || c = '-'

def numberFrom (c : Char) (cs : List Char) : Except Fault (Token × Remaining cs) :=
  let (more, rest) := run isNumberChar cs
  match Numeral.float? (c :: more) with
  | some x => .ok (.number x, rest)
  | none => .error .badNumber

def wordFrom (c : Char) (cs : List Char) : Except Fault (Token × Remaining cs) :=
  let (more, rest) := run isNameChar cs
  match word? (c :: more) with
  | some t => .ok (t, rest)
  | none => .error .unknownWord

/-- The lexeme whose first character is `c`, and what follows it in `cs`. -/
def lexeme (c : Char) (cs : List Char) : Except Fault (Token × Remaining cs) :=
  if c = '(' then .ok (.opening, .all cs)
  else if c = ')' then .ok (.closing, .all cs)
  else if c = '=' then .ok (.op .eq, .all cs)
  else if c = '!' then
    match cs with
    | '=' :: r => .ok (.op .ne, ⟨r, by simp⟩)
    | _ => .error .loneExclamation
  else if c = '<' then .ok (extended .lt .le cs)
  else if c = '>' then .ok (extended .gt .ge cs)
  else if c = '\x27' || c = '\x22' then quotedText c cs
  else if c = '$' then variableAfter cs
  else if startsNumber c then numberFrom c cs
  else if isLetter c then wordFrom c cs
  else .error .strayCharacter

/-- The lexemes of a text. -/
def tokens : List Char → Except Failure (List Placed)
  | [] => .ok []
  | c :: cs =>
    if isSpace c then tokens cs
    else
      match lexeme c cs with
      | .error f => .error ⟨f, c :: cs⟩
      | .ok (t, ⟨r, _h⟩) =>
        match tokens r with
        | .error e => .error e
        | .ok ts => .ok (⟨t, c :: cs⟩ :: ts)
termination_by cs => cs.length
decreasing_by all_goals simp only [List.length_cons]; omega

end SqlTemplate.Condition
