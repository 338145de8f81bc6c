import SqlTemplate.Sql.Statement
/-!
Reading SQL statements. A step takes what it reads off the front of the lexemes; the first lexeme
that cannot go on a statement is the one that is complained about. Every call hands on less fuel,
and there is more of it than lexemes can use.
-/

namespace SqlTemplate.Sql

/-- Takes a value off the front of the lexemes. -/
abbrev Reads (α : Type) := List Lexeme → Except Problem (α × List Lexeme)

/-- The complaint about lexemes that cannot go on. -/
def unexpected : List Lexeme → Problem
  | [] => .incomplete
  | l :: _ =>
    match l.kind with
    | .unknown => .unrecognized (String.ofList l.text) l.place
    | .stop => if l.text.isEmpty then .incomplete else .near (String.ofList l.text) l.place
    | _ => .near (String.ofList l.text) l.place

def lower (cs : List Char) : String := String.ofList (cs.map Engine.lowerAscii)

/-- The words that are no names unless they are quoted. -/
def reserved : List String := ["add", "all", "alter", "and", "as", "autoincrement", "between",
  "case", "check", "collate", "commit", "constraint", "create", "default", "deferrable", "delete",
  "distinct", "drop", "else", "escape", "except", "exists", "foreign", "from", "group", "having",
  "in", "index", "insert", "intersect", "into", "is", "isnull", "join", "limit", "not", "nothing",
  "notnull", "null", "on", "or", "order", "primary", "references", "returning", "select", "set",
  "table", "then", "to", "transaction", "union", "unique", "update", "using", "values", "when",
  "where"]

/-- The words that go on an expression or a table, and so are no labels behind one. -/
def continuing : List String := ["cross", "full", "glob", "inner", "left", "like", "match",
  "natural", "outer", "regexp", "right"]

def afterWord? (w : String) : List Lexeme → Option (List Lexeme)
  | [] => none
  | l :: ts => if l.kind = .word && lower l.text == w then some ts else none

def afterSign? (s : String) : List Lexeme → Option (List Lexeme)
  | [] => none
  | l :: ts => if l.kind = .sign && String.ofList l.text == s then some ts else none

/-- What follows words that have to stand in front. -/
def expectWords : List String → List Lexeme → Except Problem (List Lexeme)
  | [], ts => .ok ts
  | w :: ws, ts =>
    match afterWord? w ts with
    | some rest => expectWords ws rest
    | none => .error (unexpected ts)

/-- What follows a sign that has to stand in front. -/
def expectSign (s : String) (ts : List Lexeme) : Except Problem (List Lexeme) :=
  match afterSign? s ts with
  | some rest => .ok rest
  | none => .error (unexpected ts)

def skipAny (ws : List String) (ts : List Lexeme) : List Lexeme :=
  (ws.findSome? fun w => afterWord? w ts).getD ts

/-- The name that a lexeme is: a word that is not reserved, or what is quoted. -/
def Lexeme.name? (l : Lexeme) : Option String :=
  match l.kind with
  | .word => if reserved.contains (lower l.text) then none else some (String.ofList l.text)
  | .quoted | .text => some (String.ofList (unquoted l.text))
  | _ => none

/-- A name and its place. -/
def placedName : Reads (String × Nat) := fun ts =>
  match ts with
  | [] => .error (unexpected ts)
  | l :: rest =>
    match l.name? with
    | some n => .ok ((n, l.place), rest)
    | none => .error (unexpected ts)

def name : Reads String := fun ts => (placedName ts).map fun (n, rest) => (n.1, rest)

/-- One item or more with commas between them. -/
def commas {α : Type} (item : Reads α) (ts : List Lexeme) : Except Problem (List α × List Lexeme) :=
  match item ts with
  | .error p => .error p
  | .ok (a, rest) =>
    match afterSign? "," rest with
    | none => .ok ([a], rest)
    | some next =>
      if next.length < ts.length then
        match commas item next with
        | .error p => .error p
        | .ok (as, rest) => .ok (a :: as, rest)
      else .error (unexpected next)
termination_by ts.length

def parenthesized {α : Type} (item : Reads α) : Reads (List α) := fun ts => do
  let (as, rest) ← commas item (← expectSign "(" ts)
  .ok (as, ← expectSign ")" rest)

/-! ## Types -/

/-- The affinity of a type, by what its name contains. -/
def Affinity.ofType (words : List String) : Affinity :=
  let type := String.ofList (words.flatMap (·.toList.map Engine.lowerAscii))
  if words.isEmpty then .none
  else if mentions "int" type then .integer
  else if mentions "char" type || mentions "clob" type || mentions "text" type then .text
  else if mentions "blob" type then .none
  else if mentions "real" type || mentions "floa" type || mentions "doub" type then .real
  else .numeric

/-- The words of a type, with a length in parentheses behind them left out. -/
def typeWords : Reads (List String) := fun ts =>
  let words := (ts.map Lexeme.name?).takeWhile Option.isSome |>.filterMap id
  let rest := ts.drop words.length
  match words, rest with
  | _ :: _, opening :: size :: closing :: next =>
    if opening.text = ['('] && size.kind = .integer && closing.text = [')'] then .ok (words, next)
    else .ok (words, rest)
  | _, _ => .ok (words, rest)

/-! ## Expressions -/

/-- The operator of a sign with the level on which it binds. -/
def operatorOfSign : String → Option (Operator × Nat)
  | "=" | "==" => some (.eq, 4)
  | "!=" | "<>" => some (.ne, 4)
  | "<" => some (.lt, 5)
  | "<=" => some (.le, 5)
  | ">" => some (.gt, 5)
  | ">=" => some (.ge, 5)
  | "+" => some (.add, 8)
  | "-" => some (.sub, 8)
  | "*" => some (.mul, 9)
  | "||" => some (.concat, 10)
  | _ => none

/-- The operator in front with its level, and what follows it. -/
def operator? (ts : List Lexeme) : Option (Operator × Nat × List Lexeme) :=
  match ts with
  | [] => none
  | l :: rest =>
    match l.kind with
    | .sign => (operatorOfSign (String.ofList l.text)).map fun (op, level) => (op, level, rest)
    | .word =>
      match lower l.text with
      | "or" => some (.or, 1, rest)
      | "and" => some (.and, 2, rest)
      | "is" =>
        match afterWord? "not" rest with
        | some rest => some (.notSame, 4, rest)
        | none => some (.same, 4, rest)
      | _ => none
    | _ => none

/-- Whether membership is asked for, or asked for and negated, and what follows. -/
def membership? (ts : List Lexeme) : Option (Bool × List Lexeme) :=
  match afterWord? "in" ts with
  | some rest => some (false, rest)
  | none => ((afterWord? "not" ts).bind (afterWord? "in")).map (true, ·)

/-- Membership of an expression among items. That of a column among none is false even if there is
no such column. -/
def memberOf (negated : Bool) (e : Expr) (items : List Expr) : Expr :=
  let positive := match e, items with
    | .column _ _, [] => .datum (.int 0)
    | e, items => .among e items
  if negated then .not positive else positive

/-- The bytes of a blob in hexadecimal digits. -/
def blobBytes : List Char → List UInt8
  | a :: b :: cs =>
    UInt8.ofNat ((Json.hexValue? a).getD 0 * 16 + (Json.hexValue? b).getD 0) :: blobBytes cs
  | _ => []

/-- The datum that a lexeme writes. -/
def Lexeme.datum? (l : Lexeme) : Option Datum :=
  match l.kind with
  | .integer => some (.ofInt (Numeral.value l.text))
  | .real => (Numeral.float? l.text).map .real
  | .text => some (.text (Text.encode (unquoted l.text)))
  | .blob => some (.blob (blobBytes ((l.text.drop 2).dropLast)))
  | .word => if lower l.text == "null" then some .null else none
  | _ => none

mutual

/-- An expression whose operators bind at least on a level. -/
def expression : (fuel level : Nat) → Reads Expr
  | 0, _, ts => .error (unexpected ts)
  | n + 1, level, ts => do
    let (e, rest) ← operand n ts
    climb n level e rest

/-- What an expression becomes with the operators behind it. -/
def climb : (fuel level : Nat) → Expr → Reads Expr
  | 0, _, e, ts => .ok (e, ts)
  | n + 1, level, e, ts =>
    match membership? ts with
    | some (negated, rest) =>
      if 4 < level then .ok (e, ts)
      else do
        let rest ← expectSign "(" rest
        let (items, rest) ← match afterSign? ")" rest with
          | some rest => .ok ([], rest)
          | none => do
            let (items, rest) ← expressions n rest
            .ok (items, ← expectSign ")" rest)
        climb n level (memberOf negated e items) rest
    | none =>
      match operator? ts with
      | some (op, opLevel, rest) =>
        if opLevel < level then .ok (e, ts)
        else do
          let (r, rest) ← expression n (opLevel + 1) rest
          climb n level (.binary op e r) rest
      | none => .ok (e, ts)

/-- Expressions with commas between them. -/
def expressions : (fuel : Nat) → Reads (List Expr)
  | 0, ts => .error (unexpected ts)
  | n + 1, ts => do
    let (e, rest) ← expression n 0 ts
    match afterSign? "," rest with
    | none => .ok ([e], rest)
    | some rest => do
      let (es, rest) ← expressions n rest
      .ok (e :: es, rest)

/-- An operand with the operators in front of it. -/
def operand : (fuel : Nat) → Reads Expr
  | 0, ts => .error (unexpected ts)
  | n + 1, ts =>
    match ts with
    | [] => .error (unexpected ts)
    | l :: rest =>
      match l.datum? with
      | some d => .ok (.datum d, rest)
      | none =>
        match l.kind with
        | .slot number =>
          if number = 0 then .error (.slotRange l.place) else .ok (.slot number, rest)
        | .sign =>
          match String.ofList l.text with
          | "(" => do
            let (e, rest) ← expression n 0 rest
            .ok (e, ← expectSign ")" rest)
          | "-" =>
            match rest with
            | digits :: next =>
              if digits.kind = .integer then
                .ok (.datum (.ofInt (-(Numeral.value digits.text : Int))), next)
              else (operand n rest).map fun (e, rest) => (.minus e, rest)
            | [] => .error (unexpected rest)
          | "+" => (operand n rest).map fun (e, rest) => (.plus e, rest)
          | _ => .error (unexpected ts)
        | .word =>
          match lower l.text, afterSign? "(" rest with
          | "not", _ => (expression n 4 rest).map fun (e, rest) => (.not e, rest)
          | "cast", some inner => do
            let (e, inner) ← expression n 0 inner
            let (type, inner) ← typeWords (← expectWords ["as"] inner)
            .ok (.cast (.ofType type) e, ← expectSign ")" inner)
          | _, some inner =>
            match l.name? with
            | none => .error (unexpected ts)
            | some called =>
              match afterSign? "*" inner, afterSign? ")" inner with
              | some inner, _ => do
                let inner ← expectSign ")" inner
                .ok (if lower l.text == "count" then .countAll else .call called l.place [], inner)
              | none, some inner => .ok (.call called l.place [], inner)
              | none, none => do
                let (args, inner) ← expressions n inner
                .ok (.call called l.place args, ← expectSign ")" inner)
          | _, none =>
            match l.name? with
            | some column => .ok (.column column l.place, rest)
            | none => .error (unexpected ts)
        | .quoted => .ok (.column (String.ofList (unquoted l.text)) l.place, rest)
        | _ => .error (unexpected ts)

end

def expr : Reads Expr := fun ts => expression (4 * ts.length + 4) 0 ts

/-! ## Parts of statements -/

/-- The text of the lexemes in front of `rest`, without the blanks at its end. -/
def sourceBefore (ts rest : List Lexeme) : String :=
  let taken := (ts.take (ts.length - rest.length)).flatMap fun l => l.text ++ l.trail
  String.ofList ((taken.reverse.dropWhile isSpace).reverse)

/-- An item of an answer. -/
def item : Reads Item := fun ts =>
  match afterSign? "*" ts with
  | some rest => .ok (.all, rest)
  | none => do
    let (e, rest) ← expr ts
    let source := sourceBefore ts rest
    match afterWord? "as" rest with
    | some rest => do
      let (label, rest) ← name rest
      .ok (.expr e (some label) source, rest)
    | none =>
      match rest with
      | l :: rest' =>
        match l.name? with
        | some label =>
          if l.kind = .word && continuing.contains (lower l.text) then .ok (.expr e none source, rest)
          else .ok (.expr e (some label) source, rest')
        | none => .ok (.expr e none source, rest)
      | [] => .ok (.expr e none source, rest)

def condition? : Reads (Option Expr) := fun ts =>
  match afterWord? "where" ts with
  | some rest => (expr rest).map fun (e, rest) => (some e, rest)
  | none => .ok (none, ts)

def returning : Reads (List Item) := fun ts =>
  match afterWord? "returning" ts with
  | some rest => commas item rest
  | none => .ok ([], ts)

/-- Whether a reference is deferred, where that is said. -/
def deferral? : Reads (Option Bool) := fun ts =>
  match afterWord? "deferrable" ts with
  | none => .ok (none, ts)
  | some rest =>
    match afterWord? "initially" rest with
    | none => .ok (some false, rest)
    | some next =>
      match afterWord? "deferred" next, afterWord? "immediate" next with
      | some rest, _ => .ok (some true, rest)
      | none, some rest => .ok (some false, rest)
      | none, none => .error (unexpected next)

def Column.defer (c : Column) (deferred : Bool) : Column :=
  match c.references.reverse with
  | [] => c
  | r :: rs => { c with references := (({ r with deferred } : Reference) :: rs).reverse }

/-- The column with one more constraint, if there is one in front. -/
def constraint? (c : Column) (isInteger : Bool) (ts : List Lexeme) :
    Except Problem (Option (Column × List Lexeme)) :=
  match afterWord? "primary" ts, afterWord? "not" ts, afterWord? "null" ts, afterWord? "unique" ts,
      afterWord? "references" ts with
  | some rest, _, _, _, _ => do
    let rest ← expectWords ["key"] rest
    let rest := skipAny ["autoincrement"] (skipAny ["asc", "desc"] rest)
    .ok (some ({ c with isKey := true, isNumber := isInteger }, rest))
  | none, some rest, _, _, _ =>
    match afterWord? "deferrable" rest with
    | some _ => do
      let (_, rest) ← deferral? rest
      .ok (some (c.defer false, rest))
    | none => do
      let rest ← expectWords ["null"] rest
      .ok (some ({ c with isRequired := true }, rest))
  | none, none, some rest, _, _ => .ok (some (c, rest))
  | none, none, none, some rest, _ => .ok (some ({ c with isUnique := true }, rest))
  | none, none, none, none, some rest => do
    let (table, rest) ← name rest
    match afterSign? "(" rest with
    | none => .ok (some ({ c with references := c.references ++ [⟨table, none, false⟩] }, rest))
    | some rest => do
      let (column, rest) ← name rest
      let rest ← expectSign ")" rest
      .ok (some ({ c with references := c.references ++ [⟨table, some column, false⟩] }, rest))
  | none, none, none, none, none => do
    let (deferred, rest) ← deferral? ts
    .ok (deferred.map fun deferred => (c.defer deferred, rest))

/-- The column with the constraints behind it. -/
def constraints (isInteger : Bool) (c : Column) (ts : List Lexeme) :
    Except Problem (Column × List Lexeme) :=
  match constraint? c isInteger ts with
  | .error p => .error p
  | .ok none => .ok (c, ts)
  | .ok (some (d, rest)) =>
    if rest.length < ts.length then constraints isInteger d rest else .ok (d, rest)
termination_by ts.length

def column : Reads Column := fun ts => do
  let (n, rest) ← name ts
  let (type, rest) ← typeWords rest
  let isInteger := type.map (fun w => lower w.toList) == ["integer"]
  constraints isInteger ⟨n, .ofType type, false, false, false, false, []⟩ rest

def change : Reads (String × Expr) := fun ts => do
  let (n, rest) ← name ts
  let (e, rest) ← expr (← expectSign "=" rest)
  .ok ((n, e), rest)

def orderTerm : Reads OrderTerm := fun ts => do
  let (e, rest) ← expr ts
  match afterWord? "desc" rest with
  | some rest => .ok (⟨e, true⟩, rest)
  | none => .ok (⟨e, false⟩, skipAny ["asc"] rest)

def order? : Reads (List OrderTerm) := fun ts =>
  match afterWord? "order" ts with
  | some rest => do commas orderTerm (← expectWords ["by"] rest)
  | none => .ok ([], ts)

def from? : Reads (Option String) := fun ts =>
  match afterWord? "from" ts with
  | some rest => (name rest).map fun (n, rest) => (some n, rest)
  | none => .ok (none, ts)

/-- The words that may follow the beginning or the end of a transaction. -/
def transactionWords (ts : List Lexeme) : List Lexeme :=
  match afterWord? "transaction" ts with
  | some rest =>
    match name rest with
    | .ok (_, rest) => rest
    | .error _ => rest
  | none => ts

/-! ## Statements -/

/-- The rest of a statement that creates a table. A table that exists is refused by its place. -/
def create (taken : String → Bool) : Reads Statement := fun ts => do
  let ts ← expectWords ["table"] ts
  let (ifAbsent, ts) ← match afterWord? "if" ts with
    | some rest => do .ok (true, ← expectWords ["not", "exists"] rest)
    | none => .ok (false, ts)
  let ((table, place), ts) ← placedName ts
  let _ ← expectSign "(" ts
  if taken table && !ifAbsent then .error (.tableExists table place)
  else do
    let (columns, ts) ← parenthesized column ts
    .ok (.create table ifAbsent columns, ts)

/-- The rest of a statement that inserts rows. -/
def insert : Reads Statement := fun ts => do
  let (table, ts) ← name (← expectWords ["into"] ts)
  let (columns, ts) ← match afterSign? "(" ts with
    | some _ => (parenthesized name ts).map fun (ns, rest) => (some ns, rest)
    | none => .ok (none, ts)
  let (rows, ts) ← commas (parenthesized expr) (← expectWords ["values"] ts)
  let (items, ts) ← returning ts
  .ok (.insert table columns rows items, ts)

/-- The rest of a statement that updates rows. -/
def update : Reads Statement := fun ts => do
  let (table, ts) ← name ts
  let (changes, ts) ← commas change (← expectWords ["set"] ts)
  let (cond, ts) ← condition? ts
  let (items, ts) ← returning ts
  .ok (.update table changes cond items, ts)

def delete : Reads Statement := fun ts => do
  let (table, ts) ← name (← expectWords ["from"] ts)
  let (cond, ts) ← condition? ts
  let (items, ts) ← returning ts
  .ok (.delete table cond items, ts)

/-- The rest of a statement that selects rows. -/
def select : Reads Statement := fun ts => do
  let (items, ts) ← commas item (skipAny ["all"] ts)
  let (table, ts) ← from? ts
  let (cond, ts) ← condition? ts
  let (order, ts) ← order? ts
  .ok (.select items table cond order, ts)

/-- A statement; `taken` says which names tables have. -/
def statement (taken : String → Bool) : Reads Statement := fun ts =>
  match ts with
  | [] => .error (unexpected ts)
  | l :: rest =>
    if l.kind ≠ .word then .error (unexpected ts)
    else
      match lower l.text with
      | "create" => create taken rest
      | "insert" => insert rest
      | "update" => update rest
      | "delete" => delete rest
      | "select" => select rest
      | "begin" =>
        .ok (.start, transactionWords (skipAny ["deferred", "immediate", "exclusive"] rest))
      | "commit" | "end" => .ok (.commit, transactionWords rest)
      | "rollback" => .ok (.rollback, transactionWords rest)
      | _ => .error (unexpected ts)

/-- The first statement of a text and its slots. What follows its semicolon is not looked at. -/
def read (taken : String → Bool) (sql : String) : Except Problem (Statement × Slots) :=
  let (lexemes, stop) := firstStatement sql.toList
  let (numbered, slots) := numberSlots [] lexemes
  if numbered.isEmpty then .ok (.nothing, [])
  else
    match statement taken (numbered ++ [stop]) with
    | .error p => .error p
    | .ok (s, rest) => if rest.length = 1 then .ok (s, slots) else .error (unexpected rest)

end SqlTemplate.Sql
