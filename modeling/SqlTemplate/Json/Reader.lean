import SqlTemplate.Json.Raw
/-!
Reading JSON documents. A text holds one document with white space around it. `Raw.read?` reads it
as it is written, and `Json.read?` is the document that this denotes. Each step hands on a rest that
is shorter than what it was given.
-/

namespace SqlTemplate.Json

def isSpace (c : Char) : Bool := c == ' ' || c == '\t' || c == '\n' || c == '\r'

def skip (cs : List Char) : List Char := cs.dropWhile isSpace

abbrev Shorter (cs : List Char) := { r : List Char // r.length < cs.length }

def hexValue? (c : Char) : Option Nat :=
  if '0' ≤ c && c ≤ '9' then some (c.toNat - 48)
  else if 'a' ≤ c && c ≤ 'f' then some (c.toNat - 87)
  else if 'A' ≤ c && c ≤ 'F' then some (c.toNat - 55)
  else none

/-- The number of four hexadecimal digits in front. -/
def hex4? : List Char → Option (Nat × List Char)
  | a :: b :: c :: d :: r =>
    match hexValue? a, hexValue? b, hexValue? c, hexValue? d with
    | some a, some b, some c, some d => some (((a * 16 + b) * 16 + c) * 16 + d, r)
    | _, _, _, _ => none
  | _ => none

/-- The code of an escape, the reverse solidus read already. -/
def escape? : List Char → Option (Nat × List Char)
  | 'u' :: r => hex4? r
  | '\x22' :: r => some (0x22, r)
  | '\\' :: r => some (0x5C, r)
  | '/' :: r => some (0x2F, r)
  | 'b' :: r => some (0x08, r)
  | 'f' :: r => some (0x0C, r)
  | 'n' :: r => some (0x0A, r)
  | 'r' :: r => some (0x0D, r)
  | 't' :: r => some (0x09, r)
  | _ => none

theorem length_hex4? {cs r : List Char} {n : Nat} (h : hex4? cs = some (n, r)) :
    r.length < cs.length := by
  unfold hex4? at h
  split at h
  · split at h
    · simp only [Option.some.injEq, Prod.mk.injEq] at h
      simp only [← h.2, List.length_cons]; omega
    · simp at h
  · simp at h

theorem length_escape? {cs r : List Char} {n : Nat} (h : escape? cs = some (n, r)) :
    r.length < cs.length := by
  unfold escape? at h
  split at h
  · have := length_hex4? h
    simp only [List.length_cons]; omega
  all_goals first
    | (simp only [Option.some.injEq, Prod.mk.injEq] at h; simp [← h.2])
    | simp at h

/-- The codes of a text, the opening quote read already. Controls have to be escaped. -/
def string? (cs : List Char) : Option (List Nat × Shorter cs) :=
  match cs with
  | [] => none
  | '\x22' :: r => some ([], ⟨r, by simp⟩)
  | '\\' :: r =>
    match h : escape? r with
    | none => none
    | some (n, r') =>
      have hlt : r'.length < r.length := length_escape? h
      match string? r' with
      | none => none
      | some (ns, ⟨rest, hr⟩) => some (n :: ns, ⟨rest, by simp only [List.length_cons]; omega⟩)
  | c :: r =>
    if c.toNat < 0x20 then none
    else
      match string? r with
      | none => none
      | some (ns, ⟨rest, hr⟩) =>
        some (c.toNat :: ns, ⟨rest, by simp only [List.length_cons]; omega⟩)
termination_by cs.length

theorem length_skip (cs : List Char) : (skip cs).length ≤ cs.length :=
  Text.length_dropWhile_le _ _

/-- A document that is no array and no object, in front. -/
def literal? (cs : List Char) : Option (Raw × Shorter cs) :=
  match cs with
  | 'n' :: 'u' :: 'l' :: 'l' :: r => some (.null, ⟨r, by simp only [List.length_cons]; omega⟩)
  | 't' :: 'r' :: 'u' :: 'e' :: r => some (.bool true, ⟨r, by simp only [List.length_cons]; omega⟩)
  | 'f' :: 'a' :: 'l' :: 's' :: 'e' :: r =>
    some (.bool false, ⟨r, by simp only [List.length_cons]; omega⟩)
  | '\x22' :: r => (string? r).map fun (codes, rest) =>
    (.text codes, ⟨rest.1, by have := rest.2; simp only [List.length_cons]; omega⟩)
  | cs =>
    match h : lexeme? cs with
    | none => none
    | some (l, r) => some (.number l, ⟨r, length_lexeme? h⟩)

mutual

/-- A document in front, and what follows it. -/
def document? (cs : List Char) : Option (Raw × Shorter cs) :=
  have hs := length_skip cs
  match h : skip cs with
  | '[' :: r =>
    have hr : r.length < cs.length := by rw [h] at hs; simp only [List.length_cons] at hs; omega
    have hs' := length_skip r
    match h' : skip r with
    | ']' :: rest =>
      some (.arr [], ⟨rest, by rw [h'] at hs'; simp only [List.length_cons] at hs'; omega⟩)
    | _ => (items? r).map fun (js, rest) => (.arr js, ⟨rest.1, by have := rest.2; omega⟩)
  | '\x7b' :: r =>
    have hr : r.length < cs.length := by rw [h] at hs; simp only [List.length_cons] at hs; omega
    have hs' := length_skip r
    match h' : skip r with
    | '\x7d' :: rest =>
      some (.obj [], ⟨rest, by rw [h'] at hs'; simp only [List.length_cons] at hs'; omega⟩)
    | _ => (members? r).map fun (ms, rest) => (.obj ms, ⟨rest.1, by have := rest.2; omega⟩)
  | cs' =>
    (literal? cs').map fun (j, rest) =>
      (j, ⟨rest.1, by have := rest.2; rw [h] at hs; omega⟩)
termination_by (cs.length, 0)

/-- The items of an array that is not empty, up to the bracket that closes it. -/
def items? (cs : List Char) : Option (List Raw × Shorter cs) :=
  match document? cs with
  | none => none
  | some (j, ⟨r, hr⟩) =>
    have hs := length_skip r
    match h : skip r with
    | ']' :: rest =>
      some ([j], ⟨rest, by rw [h] at hs; simp only [List.length_cons] at hs; omega⟩)
    | ',' :: r' =>
      have hr' : r'.length < cs.length := by
        rw [h] at hs; simp only [List.length_cons] at hs; omega
      (items? r').map fun (js, rest) => (j :: js, ⟨rest.1, by have := rest.2; omega⟩)
    | _ => none
termination_by (cs.length, 1)

/-- The members of an object that is not empty, up to the brace that closes it. -/
def members? (cs : List Char) : Option (List (List Nat × Raw) × Shorter cs) :=
  have hs := length_skip cs
  match h : skip cs with
  | '\x22' :: r =>
    match string? r with
    | none => none
    | some (name, ⟨r1, h1⟩) =>
      have hs1 := length_skip r1
      match h2 : skip r1 with
      | ':' :: r2 =>
        have h2' : r2.length < cs.length := by
          rw [h] at hs; rw [h2] at hs1; simp only [List.length_cons] at hs hs1; omega
        match document? r2 with
        | none => none
        | some (j, ⟨r3, h3⟩) =>
          have hs3 := length_skip r3
          match h4 : skip r3 with
          | '\x7d' :: rest =>
            some ([(name, j)],
              ⟨rest, by rw [h4] at hs3; simp only [List.length_cons] at hs3; omega⟩)
          | ',' :: r5 =>
            have h5 : r5.length < cs.length := by
              rw [h4] at hs3; simp only [List.length_cons] at hs3; omega
            (members? r5).map fun (ms, rest) =>
              ((name, j) :: ms, ⟨rest.1, by have := rest.2; omega⟩)
          | _ => none
      | _ => none
  | _ => none
termination_by (cs.length, 1)

end

/-- The raw document that a text holds, if it holds one and nothing else but white space. -/
def Raw.read? (s : String) : Option Raw :=
  match document? s.toList with
  | some (r, ⟨rest, _⟩) => if (skip rest).isEmpty then some r else none
  | none => none

def maxDepth : Nat := 127

def read? (s : String) : Option Json := (Raw.read? s).bind (Raw.json? maxDepth)

end SqlTemplate.Json
