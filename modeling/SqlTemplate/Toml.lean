import SqlTemplate.Number.Binary64
/-!
TOML documents as trees, and how the statements of a document build one. A table remembers how it
came to be, because that decides what may still be added to it: a header adds to a table that other
headers only implied, a dotted key to one that dotted keys made, and a table written in braces is
closed.
-/

namespace SqlTemplate

namespace Toml

/-- How a table came to be: by a header of its own, by a longer header, by a dotted key, or written
in braces. -/
inductive Origin where
  | declared
  | implied
  | dotted
  | closed
  deriving DecidableEq, Repr

end Toml

/-- A TOML value. `tables` are the tables of a header in double brackets; a moment is a date, a time
or both, as written. -/
inductive Toml where
  | text (s : String)
  | int (i : Int)
  | float (x : Binary64)
  | bool (b : Bool)
  | moment (s : String)
  | arr (items : List Toml)
  | table (origin : Toml.Origin) (entries : List (String × Toml))
  | tables (items : List (List (String × Toml)))
  deriving Inhabited

namespace Toml

abbrev Entries := List (String × Toml)

def replace (name : String) (v : Toml) (es : Entries) : Entries :=
  es.map fun e => if e.1 = name then (name, v) else e

/-- Changes the table that a path leads to, given how that table came to be; tables that the path
misses are made, and of tables in a list the last is meant. A dotted key leads through no table
that has a header of its own, and nothing leads through a closed table. -/
def within (byDots : Bool) (change : Origin → Entries → Option Entries) :
    List String → Origin → Entries → Option Entries
  | [], origin, es => change origin es
  | name :: path, _, es =>
    match es.lookup name with
    | none =>
      let origin := if byDots then .dotted else .implied
      (within byDots change path origin []).map fun t => es ++ [(name, .table origin t)]
    | some (.table origin sub) =>
      if origin = .closed || (byDots && origin = .declared) then none
      else (within byDots change path origin sub).map fun t => replace name (.table origin t) es
    | some (.tables items) =>
      match items.getLast? with
      | none => none
      | some sub =>
        (within byDots change path .declared sub).map fun t =>
          replace name (.tables (items.dropLast ++ [t])) es
    | some _ => none

/-- Adds a value under a key with its dots. The table that gets the value was made by dots exactly
if the key has any. -/
def addPair (path : List String) (name : String) (v : Toml) (es : Entries) : Option Entries :=
  within true (fun origin es =>
    if decide (origin = .dotted) == path.isEmpty || (es.lookup name).isSome then none
    else some (es ++ [(name, v)])) path .declared es

/-- Opens the table of a header: a new one, or one that was only implied. -/
def openTable (path : List String) (name : String) (es : Entries) : Option Entries :=
  within false (fun _ es =>
    match es.lookup name with
    | none => some (es ++ [(name, .table .declared [])])
    | some (.table .implied sub) => some (replace name (.table .declared sub) es)
    | some _ => none) path .declared es

/-- Opens one more table of a header in double brackets. -/
def pushTable (path : List String) (name : String) (es : Entries) : Option Entries :=
  within false (fun _ es =>
    match es.lookup name with
    | none => some (es ++ [(name, .tables [[]])])
    | some (.tables items) => some (replace name (.tables (items ++ [[]])) es)
    | some _ => none) path .declared es

structure Key where
  path : List String
  name : String

def Key.parts (k : Key) : List String := k.path ++ [k.name]

/-- A statement of a document: a header, a header in double brackets, or a value for a key. -/
inductive Statement where
  | header (key : Key)
  | nextHeader (key : Key)
  | pair (key : Key) (v : Toml)

/-- The root table of statements, given the table that they are in and what was built so far. -/
def assemble : (here : List String) → Entries → List Statement → Option Entries
  | _, es, [] => some es
  | _, es, .header k :: rest => (openTable k.path k.name es).bind fun t => assemble k.parts t rest
  | _, es, .nextHeader k :: rest =>
    (pushTable k.path k.name es).bind fun t => assemble k.parts t rest
  | here, es, .pair k v :: rest =>
    (within false (fun _ t => addPair k.path k.name v t) here .declared es).bind fun t =>
      assemble here t rest

/-- The closed table of the pairs between braces. -/
def braces (pairs : List (Key × Toml)) : Option Toml :=
  (assemble [] [] (pairs.map fun p => .pair p.1 p.2)).map (.table .closed)

end Toml

end SqlTemplate
