import SqlTemplate.Toml.Scalar
/-!
Reading TOML documents: values, statements and whole documents. Arrays and braces nest at most 79
deep, and a key has at most 79 parts.
-/

namespace SqlTemplate.Toml

/-- Takes a value off the front of a text, if one stands there. -/
abbrev Reads (α : Type) := List Char → Option (α × List Char)

/-- One item or more with separators between them, as far as they go. -/
def series {α : Type} (item : Reads α) (separator : Char) (cs : List Char) :
    Option (List α × List Char) :=
  match item cs with
  | none => none
  | some (a, c :: r) =>
    if c = separator then
      if r.length < cs.length then
        match series item separator r with
        | none => some ([a], c :: r)
        | some (as, rest) => some (a :: as, rest)
      else none
    else some ([a], c :: r)
  | some (a, []) => some ([a], [])
termination_by cs.length

def skip (cs : List Char) : List Char := cs.dropWhile isBlank

/-- A key with blanks around its parts. -/
def key? : Reads Key := fun cs =>
  match series (fun cs => (keyPart? (skip cs)).map fun (s, r) => (s, skip r)) '.' cs with
  | some (parts, rest) =>
    match parts.getLast? with
    | some name => if parts.length < 80 then some (⟨parts.dropLast, name⟩, rest) else none
    | none => none
  | none => none

def pair? (value : Reads Toml) : Reads (Key × Toml) := fun cs => do
  let (key, r) ← key? cs
  let (v, r) ← value (skip (← expect? '=' r))
  some ((key, v), r)

/-- The items of an array up to its bracket, which a comma may precede. -/
def items? (value : Reads Toml) : Reads (List Toml) := fun cs =>
  match gap false cs with
  | ']' :: r => some ([], r)
  | cs => do
    let item cs := (value (gap false cs)).map fun (v, r) => (v, gap false r)
    let (vs, r) ← series item ',' cs
    match r with
    | ']' :: r => some (vs, r)
    | ',' :: r => (expect? ']' (gap false r)).map (vs, ·)
    | _ => none

/-- The pairs between braces, all on one line. -/
def pairs? (value : Reads Toml) : Reads (List (Key × Toml)) := fun cs =>
  match skip cs with
  | '\x7d' :: r => some ([], r)
  | cs => do
    let item cs := (pair? value cs).map fun (p, r) => (p, skip r)
    let (ps, r) ← series item ',' cs
    (expect? '\x7d' r).map (ps, ·)

def scalar : Reads Toml := fun cs =>
  match cs with
  | '\x22' :: _ | '\x27' :: _ => (string? cs).map fun (s, rest) => (.text s, rest)
  | cs => (ofWord? (word cs).1).map (·, (word cs).2)

/-- A value; `depth` more levels of nesting are allowed. -/
def value? : (depth : Nat) → Reads Toml
  | 0, cs => scalar cs
  | depth + 1, cs =>
    match cs with
    | '[' :: r => (items? (value? depth) r).map fun (vs, rest) => (.arr vs, rest)
    | '\x7b' :: r =>
      (pairs? (value? depth) r).bind fun (ps, rest) => (braces ps).map (·, rest)
    | cs => scalar cs

/-- A statement. -/
def statement? : Reads Statement := fun cs =>
  match cs with
  | '[' :: '[' :: r => do
    let (key, r) ← key? r
    (expect? ']' (← expect? ']' r)).map (.nextHeader key, ·)
  | '[' :: r => do
    let (key, r) ← key? r
    (expect? ']' r).map (.header key, ·)
  | cs => (pair? (value? 79) cs).map fun (p, r) => (.pair p.1 p.2, r)

/-- Whether a line ends here, with or without a comment. -/
def endsLine : List Char → Bool
  | [] | '\n' :: _ | '\r' :: '\n' :: _ | '#' :: _ => true
  | _ => false

/-- The statements of a document, each on a line of its own. -/
def statements? (cs : List Char) : Option (List Statement) :=
  if cs.isEmpty then some []
  else
    match statement? cs with
    | none => none
    | some (s, r) =>
      if endsLine (skip r) then
        if (gap false (skip r)).length < cs.length then
          (statements? (gap false (skip r))).map (s :: ·)
        else none
      else none
termination_by cs.length

/-- The root table of a document, which a byte order mark may precede. -/
def read? (s : String) : Option Entries :=
  let cs := match s.toList with
    | c :: cs => if c = Char.ofNat 0xFEFF then cs else c :: cs
    | [] => []
  (statements? (gap false cs)).bind (assemble [] [])

end SqlTemplate.Toml
