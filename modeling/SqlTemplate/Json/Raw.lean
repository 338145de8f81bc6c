import SqlTemplate.Json.Number
/-!
Raw JSON documents: a document as it is written. A text is the codes that its characters and escapes
write and a number is its lexeme, so a raw document may hold a surrogate without its partner, a
number out of range or any depth of nesting. `Raw.json?` is the document that it denotes, if it
denotes one.
-/

namespace SqlTemplate.Json

/-- A raw document. -/
inductive Raw where
  | null
  | bool (b : Bool)
  | number (l : Lexeme)
  | text (codes : List Nat)
  | arr (items : List Raw)
  | obj (members : List (List Nat × Raw))
  deriving Inhabited

def isLead (n : Nat) : Bool := 0xD800 ≤ n && n ≤ 0xDBFF

def isTrail (n : Nat) : Bool := 0xDC00 ≤ n && n ≤ 0xDFFF

def paired (lead trail : Nat) : Char :=
  Char.ofNat (0x10000 + (lead - 0xD800) * 0x400 + (trail - 0xDC00))

/-- The characters that codes write: every surrogate has to be one of a pair. -/
def characters? : List Nat → Option (List Char)
  | [] => some []
  | [n] => if isLead n || isTrail n then none else some [Char.ofNat n]
  | n :: m :: ns =>
    if isLead n then
      if isTrail m then (characters? ns).map (paired n m :: ·) else none
    else if isTrail n then none
    else (characters? (m :: ns)).map (Char.ofNat n :: ·)

def text? (codes : List Nat) : Option String := (characters? codes).map String.ofList

/-- A character that is no surrogate writes itself. -/
theorem characters?_map_toNat (cs : List Char) : characters? (cs.map Char.toNat) = some cs := by
  have plain (c : Char) : isLead c.toNat = false ∧ isTrail c.toNat = false := by
    have h := c.valid
    simp only [UInt32.isValidChar, Nat.isValidChar] at h
    simp only [isLead, isTrail, Bool.and_eq_false_iff, decide_eq_false_iff_not, Char.toNat]
    omega
  induction cs with
  | nil => rfl
  | cons c cs ih =>
    cases cs with
    | nil => simp [characters?, plain c]
    | cons d ds =>
      simp only [List.map_cons] at ih ⊢
      simp [characters?, plain c, ih]

namespace Raw

mutual

/-- The document that a raw one denotes, if it is nested at most `depth` deep. -/
def json? (depth : Nat) : Raw → Option Json
  | .null => some .null
  | .bool b => some (.bool b)
  | .number l => l.json?
  | .text codes => (text? codes).map .text
  | .arr items =>
    match depth with
    | 0 => none
    | depth + 1 => (jsonItems? depth items).map .arr
  | .obj members =>
    match depth with
    | 0 => none
    | depth + 1 => (jsonMembers? depth members).map .obj

/-- The documents that all items denote. -/
def jsonItems? (depth : Nat) : List Raw → Option (List Json)
  | [] => some []
  | r :: rs =>
    match json? depth r with
    | none => none
    | some j => (jsonItems? depth rs).map (j :: ·)

/-- The members that all raw members denote. -/
def jsonMembers? (depth : Nat) : List (List Nat × Raw) → Option (List (String × Json))
  | [] => some []
  | (codes, r) :: ms =>
    match text? codes, json? depth r with
    | some name, some j => (jsonMembers? depth ms).map ((name, j) :: ·)
    | _, _ => none

end

end Raw

end SqlTemplate.Json
