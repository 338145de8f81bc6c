import SqlTemplate.Number.Integer
import SqlTemplate.Number.Shortest
/-!
JSON documents. Members stand in the order in which they were written, repetitions included;
`Json.sorted` keeps the last member of every name and orders them by name. `Json.compact` and
`Json.pretty` write a document on one line and with an indentation of two spaces.
-/

namespace SqlTemplate

/-- A JSON document. A number is an integer or a floating-point number. -/
inductive Json where
  | null
  | bool (b : Bool)
  | int (i : Int)
  | float (x : Binary64)
  | text (s : String)
  | arr (items : List Json)
  | obj (members : List (String × Json))
  deriving Inhabited

/-- Floating-point numbers in JSON have a point or an exponent; from 10^16 on and below 10^-5 it
is an exponent with its sign. -/
def Spelling.json : Spelling where
  plainFrom := some (-5)
  plainUpTo := some 15
  pointZero := true
  evenTie := true

namespace Json

/-- The member in the place of all of its name: it replaces one that is there, and otherwise stands
at its place in the order of names. -/
def setMember (name : String) (v : Json) : List (String × Json) → List (String × Json)
  | [] => [(name, v)]
  | m :: ms =>
    match compare name m.1 with
    | .lt => (name, v) :: m :: ms
    | .eq => (name, v) :: ms
    | .gt => m :: setMember name v ms

mutual

/-- The document with the members of every object ordered by name, the last one of each kept. -/
def sorted : Json → Json
  | .arr items => .arr (sortedItems items)
  | .obj members => .obj ((sortedMembers members).foldl (fun ms m => setMember m.1 m.2 ms) [])
  | j => j

def sortedItems : List Json → List Json
  | [] => []
  | j :: js => sorted j :: sortedItems js

def sortedMembers : List (String × Json) → List (String × Json)
  | [] => []
  | (name, j) :: ms => (name, sorted j) :: sortedMembers ms

end

def hexDigit (n : Nat) : Char := if n < 10 then Char.ofNat (48 + n) else Char.ofNat (87 + n)

/-- A character between quotes: quotes, reverse solidi and controls are escaped. -/
def escaped (c : Char) : List Char :=
  match c.toNat with
  | 0x22 => ['\\', '\x22']
  | 0x5C => ['\\', '\\']
  | 0x08 => ['\\', 'b']
  | 0x0C => ['\\', 'f']
  | 0x0A => ['\\', 'n']
  | 0x0D => ['\\', 'r']
  | 0x09 => ['\\', 't']
  | n => if n < 0x20 then ['\\', 'u', '0', '0', hexDigit (n / 16), hexDigit (n % 16)] else [c]

def quoted (s : String) : String :=
  String.ofList ('\x22' :: (s.toList.flatMap escaped ++ ['\x22']))

def number (x : Binary64) : String :=
  if x.isFinite then String.ofList (Spelling.json.write x) else "null"

mutual

/-- The document on one line, without spaces between its parts. -/
def compact : Json → String
  | .null => "null"
  | .bool b => if b then "true" else "false"
  | .int i => integerText i
  | .float x => number x
  | .text s => quoted s
  | .arr items => "[" ++ compactItems items ++ "]"
  | .obj members => "\x7b" ++ compactMembers members ++ "\x7d"

def compactItems : List Json → String
  | [] => ""
  | [j] => compact j
  | j :: js => compact j ++ "," ++ compactItems js

def compactMembers : List (String × Json) → String
  | [] => ""
  | [(name, j)] => quoted name ++ ":" ++ compact j
  | (name, j) :: ms => quoted name ++ ":" ++ compact j ++ "," ++ compactMembers ms

end

def newline (depth : Nat) : String := String.ofList ('\n' :: List.replicate (2 * depth) ' ')

mutual

/-- The document with every item and member on its own line; `depth` is that of the line it
starts on. -/
def indented (depth : Nat) : Json → String
  | .arr [] => "[]"
  | .arr (j :: js) =>
    "[" ++ newline (depth + 1) ++ indented (depth + 1) j ++ indentedItems depth js ++
      newline depth ++ "]"
  | .obj [] => "\x7b\x7d"
  | .obj ((name, j) :: ms) =>
    "\x7b" ++ newline (depth + 1) ++ quoted name ++ ": " ++ indented (depth + 1) j ++
      indentedMembers depth ms ++ newline depth ++ "\x7d"
  | .null => "null"
  | .bool b => if b then "true" else "false"
  | .int i => integerText i
  | .float x => number x
  | .text s => quoted s

def indentedItems (depth : Nat) : List Json → String
  | [] => ""
  | j :: js => "," ++ newline (depth + 1) ++ indented (depth + 1) j ++ indentedItems depth js

def indentedMembers (depth : Nat) : List (String × Json) → String
  | [] => ""
  | (name, j) :: ms =>
    "," ++ newline (depth + 1) ++ quoted name ++ ": " ++ indented (depth + 1) j ++
      indentedMembers depth ms

end

def pretty (j : Json) : String := indented 0 j

end Json

end SqlTemplate
