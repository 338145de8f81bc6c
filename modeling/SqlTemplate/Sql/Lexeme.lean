import SqlTemplate.Text.Search
import SqlTemplate.Text.Utf8
import SqlTemplate.Engine
import SqlTemplate.Number.Numeral
import SqlTemplate.Json.Reader
/-!
The lexemes of SQL. A lexeme keeps its place in the text, for the messages that name it, and the
blanks and comments behind it, for the columns that are named by their text. Slots for parameters
are numbered in the order in which they occur.
-/

namespace SqlTemplate.Sql

open Numeral (isDigit)

/-- The kinds of lexemes. A slot has its number; `stop` is the end of a statement. -/
inductive Kind where
  | blank
  | word
  | quoted
  | text
  | blob
  | integer
  | real
  | slot (number : Nat)
  | sign
  | unknown
  | stop
  deriving DecidableEq, Repr

/-- A lexeme: its characters, the blanks and comments behind it, and the byte at which it starts. -/
structure Lexeme where
  kind : Kind
  text : List Char
  trail : List Char
  place : Nat
  deriving DecidableEq, Repr

def isSpace (c : Char) : Bool := c == ' ' || (0x09 ≤ c.toNat && c.toNat ≤ 0x0D)

def isWordStart (c : Char) : Bool :=
  ('a' ≤ c && c ≤ 'z') || ('A' ≤ c && c ≤ 'Z') || c == '_' || 0x80 ≤ c.toNat

def isWordRest (c : Char) : Bool := isWordStart c || isDigit c || c == '$'

def runLength (p : Char → Bool) (cs : List Char) : Nat := (cs.takeWhile p).length

/-- The number of characters up to the quote that closes; a doubled quote stands for itself. -/
def quoteLength? (q : Char) : List Char → Option Nat
  | [] => none
  | [c] => if c = q then some 1 else none
  | c :: d :: cs =>
    if c = q then if d = q then (quoteLength? q cs).map (· + 2) else some 1
    else (quoteLength? q (d :: cs)).map (· + 1)

/-- The number of characters of a comment in asterisks after its opening; one that stays open
takes everything. -/
def commentLength (cs : List Char) : Nat :=
  match Text.cutAt? ['*', '/'] cs with
  | some (before, _) => before.length + 2
  | none => cs.length

/-- The number of characters of the name of a slot. -/
def slotNameLength : List Char → Nat
  | ':' :: ':' :: cs => slotNameLength cs + 2
  | c :: cs => if isWordRest c then slotNameLength cs + 1 else 0
  | [] => 0

/-- The kind of a numeral and how many characters of it follow its first digit. -/
def numeralKind (cs : List Char) : Kind × Nat :=
  let whole := runLength isDigit cs
  let afterWhole := cs.drop whole
  let fraction := match afterWhole with
    | '.' :: r => runLength isDigit r + 1
    | _ => 0
  let exponent := match afterWhole.drop fraction with
    | e :: s :: r =>
      if e == 'e' || e == 'E' then
        if isDigit s then runLength isDigit r + 2
        else if s == '+' || s == '-' then
          if runLength isDigit r = 0 then 0 else runLength isDigit r + 2
        else 0
      else 0
    | _ => 0
  let length := whole + fraction + exponent
  let junk := runLength isWordRest (cs.drop length)
  let kind : Kind := if junk ≠ 0 then .unknown
    else if fraction + exponent = 0 then .integer else .real
  (kind, length + junk)

/-- The kind of a blob and how many characters of it follow its letter and quote. -/
def blobKind (cs : List Char) : Kind × Nat :=
  let digits := runLength (fun c => (Json.hexValue? c).isSome) cs
  match cs.drop digits with
  | '\x27' :: _ => (if digits % 2 = 0 then .blob else .unknown, digits + 1)
  | _ =>
    let skipped := runLength (· != '\x27') cs
    (.unknown, if skipped < cs.length then skipped + 1 else skipped)

/-- The kind of the lexeme that begins with `c` and how many characters of `cs` belong to it. -/
def measure (c : Char) (cs : List Char) : Kind × Nat :=
  if isSpace c || c = Char.ofNat 0xFEFF then (.blank, runLength isSpace cs)
  else if isDigit c then numeralKind cs
  else if isWordStart c then
    match cs with
    | '\x27' :: r =>
      if c == 'x' || c == 'X' then let (k, n) := blobKind r; (k, n + 1) else (.word, 0)
    | _ => (.word, runLength isWordRest cs)
  else if c = '\x27' || c = '\x22' || c = Char.ofNat 0x60 then
    match quoteLength? c cs with
    | some n => (if c = '\x27' then .text else .quoted, n)
    | none => (.unknown, cs.length)
  else if c = '[' then
    let n := runLength (· != ']') cs
    if n < cs.length then (.quoted, n + 1) else (.unknown, n)
  else if c = '?' then (.slot 0, runLength isDigit cs)
  else if c = ':' || c = '@' || c = '#' || c = '$' then
    let n := slotNameLength cs
    (if n = 0 then .unknown else .slot 0, n)
  else
    match c, cs with
    | '-', '-' :: r => (.blank, 1 + runLength (· != '\n') r)
    | '-', '>' :: '>' :: _ => (.sign, 2)
    | '-', '>' :: _ => (.sign, 1)
    | '/', '*' :: d :: r => (.blank, 1 + commentLength (d :: r))
    | '=', '=' :: _ | '<', '=' :: _ | '<', '>' :: _ | '<', '<' :: _ | '>', '=' :: _
    | '>', '>' :: _ | '!', '=' :: _ | '|', '|' :: _ => (.sign, 1)
    | '!', _ => (.unknown, 0)
    | '.', d :: r =>
      if isDigit d then let (k, n) := numeralKind ('.' :: d :: r); (k, n - 1) else (.sign, 0)
    | ';', _ => (.stop, 0)
    | _, _ =>
      if ['(', ')', '+', '-', '*', '/', '%', '=', '<', '>', '|', ',', '&', '~', '.'].contains c then
        (.sign, 0)
      else (.unknown, 0)

/-- The lexemes of a text that begins at byte `place`, with those of blanks and comments. -/
def scan (place : Nat) : List Char → List Lexeme
  | [] => []
  | c :: cs =>
    let (kind, n) := measure c cs
    let text := c :: cs.take n
    ⟨kind, text, [], place⟩ :: scan (place + Text.byteLength text) (cs.drop n)
termination_by cs => cs.length
decreasing_by simp only [List.length_drop, List.length_cons]; omega

/-- The lexemes with the blanks and comments behind each joined to it; those in front are left
out. -/
def joinBlanks : List Lexeme → List Lexeme
  | [] => []
  | l :: ls =>
    if l.kind = .blank then joinBlanks ls
    else
      let trail := (ls.takeWhile (·.kind = .blank)).flatMap (·.text)
      { l with trail } :: joinBlanks ls

/-- The slots of a statement: the name of each, if it has one, from number 1 on. -/
abbrev Slots := List (Option String)

/-- The number of a slot that is written as `text`, and the slots with it: a name that occurred
keeps its number, a number makes all up to it, and what has neither is the next. -/
def Slots.take (slots : Slots) (text : List Char) : Nat × Slots :=
  match text with
  | ['?'] => (slots.length + 1, slots ++ [none])
  | '?' :: digits =>
    let n := Numeral.value digits
    let padded := slots ++ List.replicate (n - slots.length) none
    (n, if (padded[n - 1]?).join.isSome then padded
      else padded.set (n - 1) (some (String.ofList text)))
  | _ =>
    let name := some (String.ofList text)
    match slots.idxOf? name with
    | some i => (i + 1, slots)
    | none => (slots.length + 1, slots ++ [name])

def maxSlot : Nat := 32766

/-- Whether the text of a slot has a number in range, or none. -/
def inRange : List Char → Bool
  | '?' :: d :: ds => 0 < Numeral.value (d :: ds) && Numeral.value (d :: ds) ≤ maxSlot
  | _ => true

/-- A lexeme with its slot numbered, and the slots with it. A number out of range takes no slot. -/
def Lexeme.numbered (slots : Slots) (l : Lexeme) : Lexeme × Slots :=
  match l.kind with
  | .slot _ =>
    if inRange l.text then
      let (n, slots) := slots.take l.text
      ({ l with kind := .slot n }, slots)
    else (l, slots)
  | _ => (l, slots)

/-- The lexemes with their slots numbered, and the slots. -/
def numberSlots (slots : Slots) : List Lexeme → List Lexeme × Slots
  | [] => ([], slots)
  | l :: ls =>
    let (first, slots) := l.numbered slots
    let (rest, slots) := numberSlots slots ls
    (first :: rest, slots)

/-- The lexemes of the first statement of a text and the one that ends it. Semicolons in front of
it are left out. -/
def firstStatement (source : List Char) : List Lexeme × Lexeme :=
  let all := (joinBlanks (scan 0 source)).dropWhile (·.kind = .stop)
  let stop := (all.find? (·.kind = .stop)).getD ⟨.stop, [], [], Text.byteLength source⟩
  (all.takeWhile (·.kind ≠ .stop), stop)

/-- The text between the quotes of a lexeme, doubled quotes written once. -/
def unquoted (text : List Char) : List Char :=
  match text with
  | [] => []
  | q :: rest =>
    if q = '[' then rest.dropLast
    else
      let rec once : List Char → List Char
        | c :: d :: cs => if c = q && d = q then q :: once cs else c :: once (d :: cs)
        | cs => cs
      once rest.dropLast

end SqlTemplate.Sql
