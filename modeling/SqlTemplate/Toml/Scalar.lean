import SqlTemplate.Number.Integer
import SqlTemplate.Json.Reader
import SqlTemplate.Toml
/-!
The lexemes of TOML documents: keys, the four kinds of strings, numbers, truth values and moments.
-/

namespace SqlTemplate.Toml

open Numeral (isDigit)

def isBlank (c : Char) : Bool := c == ' ' || c == '\t'

/-- Characters that need no escape where any may stand: the tab, and all from the space on but the
delete character. -/
def isPlain (c : Char) : Bool := c == '\t' || (0x20 ≤ c.toNat && c.toNat ≠ 0x7F)

def isKeyChar (c : Char) : Bool :=
  isDigit c || ('a' ≤ c && c ≤ 'z') || ('A' ≤ c && c ≤ 'Z') || c == '-' || c == '_'

/-- What follows blanks, line ends and comments; `comment` says whether a comment is open. -/
def gap (comment : Bool) : List Char → List Char
  | [] => []
  | '\r' :: '\n' :: cs => gap false cs
  | c :: cs =>
    if c = '\n' then gap false cs
    else if comment then if isPlain c then gap true cs else c :: cs
    else if isBlank c then gap false cs
    else if c = '#' then gap true cs
    else c :: cs

/-! ## Strings -/

/-- The character that a letter denotes after a reverse solidus. -/
def escaped? : Char → Option Char
  | 'b' => some '\x08'
  | 't' => some '\t'
  | 'n' => some '\n'
  | 'f' => some '\x0c'
  | 'r' => some '\r'
  | '\x22' => some '\x22'
  | '\\' => some '\\'
  | _ => none

def scalar? (digits : List Char) : Option Char :=
  (digits.mapM Json.hexValue?).bind fun ns =>
    let n := ns.foldl (fun n d => 16 * n + d) 0
    if n < 0xD800 || (0xE000 ≤ n && n ≤ 0x10FFFF) then some (Char.ofNat n) else none

def put (c : Option Char) (r : Option (List Char × List Char)) : Option (List Char × List Char) :=
  c.bind fun c => r.map fun (s, rest) => (c :: s, rest)

/-- A string in double quotes on one line, the opening quote read already. -/
def basic? : List Char → Option (List Char × List Char)
  | [] => none
  | '\x22' :: r => some ([], r)
  | '\\' :: 'u' :: a :: b :: c :: d :: r => put (scalar? [a, b, c, d]) (basic? r)
  | '\\' :: 'U' :: a :: b :: c :: d :: e :: f :: g :: h :: r =>
    put (scalar? [a, b, c, d, e, f, g, h]) (basic? r)
  | '\\' :: c :: r => put (escaped? c) (basic? r)
  | c :: r => if isPlain c && c != '\\' then put (some c) (basic? r) else none

/-- A string in single quotes on one line, the opening quote read already. -/
def literal? : List Char → Option (List Char × List Char)
  | [] => none
  | '\x27' :: r => some ([], r)
  | c :: r => if isPlain c then put (some c) (literal? r) else none

/-- Where a string over several lines stands: in its text, between a reverse solidus and the line
end that it hides, or in the blanks that it hides with it. -/
inductive Margin where
  | text
  | hiding
  | hidden
  deriving DecidableEq

/-- A string in triple double quotes, the opening ones read already. Up to two quotes may stand in
front of the closing ones. -/
def basicLines? : Margin → List Char → Option (List Char × List Char)
  | _, [] => none
  | .text, '\r' :: '\n' :: r | .text, '\n' :: r => put (some '\n') (basicLines? .text r)
  | _, '\r' :: '\n' :: r | _, '\n' :: r => basicLines? .hidden r
  | m, ' ' :: r => if m = .text then put (some ' ') (basicLines? m r) else basicLines? m r
  | m, '\t' :: r => if m = .text then put (some '\t') (basicLines? m r) else basicLines? m r
  | .hiding, _ :: _ => none
  | _, '\x22' :: '\x22' :: '\x22' :: '\x22' :: '\x22' :: r => some (['\x22', '\x22'], r)
  | _, '\x22' :: '\x22' :: '\x22' :: '\x22' :: r => some (['\x22'], r)
  | _, '\x22' :: '\x22' :: '\x22' :: r => some ([], r)
  | _, '\\' :: 'u' :: a :: b :: c :: d :: r => put (scalar? [a, b, c, d]) (basicLines? .text r)
  | _, '\\' :: 'U' :: a :: b :: c :: d :: e :: f :: g :: h :: r =>
    put (scalar? [a, b, c, d, e, f, g, h]) (basicLines? .text r)
  | _, '\\' :: ' ' :: r | _, '\\' :: '\t' :: r => basicLines? .hiding r
  | _, '\\' :: '\r' :: '\n' :: r | _, '\\' :: '\n' :: r => basicLines? .hidden r
  | _, '\\' :: c :: r => put (escaped? c) (basicLines? .text r)
  | _, c :: r => if isPlain c && c != '\\' then put (some c) (basicLines? .text r) else none

/-- A string in triple single quotes, the opening ones read already. -/
def literalLines? : List Char → Option (List Char × List Char)
  | [] => none
  | '\r' :: '\n' :: r => put (some '\n') (literalLines? r)
  | '\x27' :: '\x27' :: '\x27' :: '\x27' :: '\x27' :: r => some (['\x27', '\x27'], r)
  | '\x27' :: '\x27' :: '\x27' :: '\x27' :: r => some (['\x27'], r)
  | '\x27' :: '\x27' :: '\x27' :: r => some ([], r)
  | c :: r => if isPlain c || c == '\n' then put (some c) (literalLines? r) else none

def afterLineEnd : List Char → List Char
  | '\r' :: '\n' :: r => r
  | '\n' :: r => r
  | r => r

/-- A string of one of the four kinds. -/
def string? : List Char → Option (String × List Char)
  | '\x22' :: '\x22' :: '\x22' :: r => finish (basicLines? .text (afterLineEnd r))
  | '\x22' :: r => finish (basic? r)
  | '\x27' :: '\x27' :: '\x27' :: r => finish (literalLines? (afterLineEnd r))
  | '\x27' :: r => finish (literal? r)
  | _ => none
where
  /-- The characters that were read as a string. -/
  finish (r : Option (List Char × List Char)) : Option (String × List Char) :=
    r.map fun (s, rest) => (String.ofList s, rest)

/-! ## Keys -/

/-- A part of a key: a string on one line, or the longest run of key characters. -/
def keyPart? : List Char → Option (String × List Char)
  | '\x22' :: r => string?.finish (basic? r)
  | '\x27' :: r => string?.finish (literal? r)
  | cs =>
    if (cs.takeWhile isKeyChar).isEmpty then none
    else some (String.ofList (cs.takeWhile isKeyChar), cs.dropWhile isKeyChar)

/-! ## Numbers and moments -/

def isWordChar (c : Char) : Bool := isKeyChar c || c == '+' || c == '.' || c == ':'

/-- Digits of a class without the underscores that may stand singly between two of them. -/
def grouped? (p : Char → Bool) : List Char → Option (List Char)
  | [] => none
  | [c] => if p c then some [c] else none
  | c :: '_' :: r => if p c then (grouped? p r).map (c :: ·) else none
  | c :: r => if p c then (grouped? p r).map (c :: ·) else none

def whole? (cs : List Char) : Option (List Char) :=
  (grouped? isDigit cs).filter fun ds => ds.length = 1 || ds.head? ≠ some '0'

def based? (base : Nat) (cs : List Char) : Option Int :=
  (grouped? (fun c => (Json.hexValue? c).any (· < base)) cs).map fun ds =>
    ((ds.filterMap Json.hexValue?).foldl (fun n d => base * n + d) 0 : Nat)

/-- An integer. -/
def int? : List Char → Option Int
  | '0' :: 'x' :: cs => based? 16 cs
  | '0' :: 'o' :: cs => based? 8 cs
  | '0' :: 'b' :: cs => based? 2 cs
  | cs =>
    let (negative, digits) := Numeral.sign cs
    (whole? digits).map fun ds =>
      if negative then -(Numeral.value ds : Int) else Numeral.value ds

def isExponent : List Char → Bool
  | [] => true
  | c :: cs => (c == 'e' || c == 'E') && (grouped? isDigit (Numeral.sign cs).2).isSome

/-- Whether digits with a point or an exponent, or both, follow the sign. -/
def isFraction (cs : List Char) : Bool :=
  let mantissa := cs.takeWhile fun c => c != 'e' && c != 'E'
  let exponent := cs.dropWhile fun c => c != 'e' && c != 'E'
  let whole := mantissa.takeWhile (· != '.')
  (whole? whole).isSome && isExponent exponent &&
    match mantissa.dropWhile (· != '.') with
    | [] => !exponent.isEmpty
    | _ :: fraction => (grouped? isDigit fraction).isSome

/-- A floating-point number; one too large for any finite number is refused. -/
def float? (cs : List Char) : Option Binary64 :=
  let (negative, digits) := Numeral.sign cs
  match digits with
  | ['i', 'n', 'f'] => some (.infinite negative)
  | ['n', 'a', 'n'] => some .nan
  | _ =>
    if isFraction digits then
      (Numeral.float? (cs.filter (· != '_'))).filter (· ≠ .infinite false)
    else none

def digits? (n : Nat) (cs : List Char) : Option (Nat × List Char) :=
  let ds := cs.take n
  if ds.length = n && ds.all isDigit then some (Numeral.value ds, cs.drop n) else none

def expect? (c : Char) : List Char → Option (List Char)
  | [] => none
  | d :: r => if c = d then some r else none

def monthLength (year month : Nat) : Nat :=
  if month = 2 then
    if year % 4 = 0 && (year % 100 ≠ 0 || year % 400 = 0) then 29 else 28
  else if month = 4 || month = 6 || month = 9 || month = 11 then 30
  else 31

def afterDate? (cs : List Char) : Option (List Char) := do
  let (year, cs) ← digits? 4 cs
  let (month, cs) ← digits? 2 (← expect? '-' cs)
  let (day, cs) ← digits? 2 (← expect? '-' cs)
  if 1 ≤ month && month ≤ 12 && 1 ≤ day && day ≤ monthLength year month then some cs else none

def afterMinute? (cs : List Char) : Option (List Char) := do
  let (hour, cs) ← digits? 2 cs
  let (minute, cs) ← digits? 2 (← expect? ':' cs)
  if hour ≤ 23 && minute ≤ 59 then some cs else none

/-- What follows a time of day. -/
def afterTime? (cs : List Char) : Option (List Char) := do
  let (second, cs) ← digits? 2 (← expect? ':' (← afterMinute? cs))
  if 60 < second then none
  else
    match cs with
    | '.' :: r => if (r.takeWhile isDigit).isEmpty then none else some (r.dropWhile isDigit)
    | r => some r

def isOffset : List Char → Bool
  | ['Z'] | ['z'] => true
  | '+' :: r | '-' :: r => afterMinute? r == some []
  | _ => false

/-- Whether the text is a date, a time, or a date with a time and perhaps an offset. -/
def isMoment (cs : List Char) : Bool :=
  match afterDate? cs with
  | none => afterTime? cs == some []
  | some [] => true
  | some (c :: r) =>
    (c == 'T' || c == 't' || c == ' ') &&
      match afterTime? r with
      | none => false
      | some rest => rest.isEmpty || isOffset rest

/-- The word in front; a date takes the time after one space with it. -/
def word (cs : List Char) : List Char × List Char :=
  let first := cs.takeWhile isWordChar
  match cs.dropWhile isWordChar with
  | ' ' :: c :: r =>
    if isDigit c && afterDate? first == some [] then
      (first ++ ' ' :: (c :: r).takeWhile isWordChar, (c :: r).dropWhile isWordChar)
    else (first, ' ' :: c :: r)
  | rest => (first, rest)

/-- The value that a word writes. -/
def ofWord? (w : List Char) : Option Toml :=
  if w = "true".toList then some (.bool true)
  else if w = "false".toList then some (.bool false)
  else if isMoment w then some (.moment (String.ofList w))
  else
    match int? w with
    | some i => if isInt64 i then some (.int i) else none
    | none => (float? w).map .float

end SqlTemplate.Toml
