import SqlTemplate.Number.Numeral
import SqlTemplate.Text.Blank
import SqlTemplate.Text.Search
import SqlTemplate.Value
/-!
Arguments of the command line. They are read one by one from the left: options that hold for every
task, the name of a task, and that task's options and its one operand in any order. What is read
is an invocation: a task with all that it needs.
-/

namespace SqlTemplate.CommandLine

/-- How an answer is written. -/
inductive Format where
  | text
  | json
  deriving DecidableEq, Repr

def Format.name : Format → String
  | .text => "text"
  | .json => "json"

def Format.ofName? (s : String) : Option Format := [Format.text, .json].find? (·.name == s)

inductive TaskKind where
  | prune
  | eval
  | exec
  deriving DecidableEq, Repr

def TaskKind.name : TaskKind → String
  | .prune => "prune"
  | .eval => "eval"
  | .exec => "exec"

def TaskKind.ofName? (s : String) : Option TaskKind :=
  [TaskKind.prune, .eval, .exec].find? (·.name == s)

def TaskKind.operandName : TaskKind → String
  | .prune | .exec => "TEMPLATE"
  | .eval => "EXPR"

/-- The options. -/
inductive Key where
  | config
  | format
  | values
  | expansion
  | normalize
  | database
  | binds
  | rowCount
  | output
  deriving DecidableEq, Repr

/-- The name of an option, without its dashes. -/
def Key.name : Key → String
  | .config => "config"
  | .format => "format"
  | .values => "values"
  | .expansion => "repeat"
  | .normalize => "normalize"
  | .database => "db"
  | .binds => "binds"
  | .rowCount => "array-bind-count"
  | .output => "out"

def Key.hasValue (k : Key) : Bool := k ≠ .normalize

def Key.isList (k : Key) : Bool := k == .expansion || k == .output

def generalKeys : List Key := [.config, .format]

def TaskKind.keys : TaskKind → List Key
  | .prune => generalKeys ++ [.values, .expansion, .normalize]
  | .eval => generalKeys ++ [.values]
  | .exec => generalKeys ++ [.database, .binds, .rowCount, .output]

def count? (cs : List Char) : Option Nat := (Numeral.natural? cs).filter (· < Nat.pow 2 64)

/-- The name and the count of an expansion, which an equals sign divides. -/
def expansion? (s : String) : Option (String × Nat) :=
  match Text.cutAt? ['='] s.toList with
  | some (name, count) =>
    (count? (Text.trim count)).map ((String.ofList (Text.trim name), ·))
  | none => none

/-- Whether an option takes a value: a path is not empty. -/
def Key.accepts (k : Key) (value : String) : Bool :=
  match k with
  | .config | .values | .database | .binds => !value.isEmpty
  | .format => (Format.ofName? value).isSome
  | .expansion => (expansion? value).isSome
  | .rowCount => (count? value.toList).isSome
  | .normalize | .output => true

/-- What is wrong with arguments. -/
inductive Usage where
  | unknownOption (argument : String)
  | missingValue (k : Key)
  | unneededValue (name value : String)
  | refusedValue (k : Key) (value : String)
  | givenTwice (k : Key)
  | unknownTask (name : String)
  | missingTask
  | missingOperand (name : String)
  | emptyOperand (name : String)
  | excessOperand (argument : String)
  deriving DecidableEq, Repr

/-- The words for it. -/
def Usage.message : Usage → String
  | .unknownOption argument => "unexpected argument '" ++ argument ++ "'"
  | .missingValue k => "a value is required for '--" ++ k.name ++ "'"
  | .unneededValue name value => "unexpected value '" ++ value ++ "' for '--" ++ name ++ "'"
  | .refusedValue k value => "invalid value '" ++ value ++ "' for '--" ++ k.name ++ "'"
  | .givenTwice k => "the option '--" ++ k.name ++ "' cannot be used multiple times"
  | .unknownTask name => "unrecognized subcommand '" ++ name ++ "'"
  | .missingTask => "a subcommand is required"
  | .missingOperand name => "the required argument <" ++ name ++ "> was not provided"
  | .emptyOperand name => "the argument <" ++ name ++ "> is empty"
  | .excessOperand argument => "unexpected argument '" ++ argument ++ "'"

/-- Why reading stops before the last argument or ends without an invocation. -/
inductive Stop where
  | help
  | version
  | misused (u : Usage)
  deriving DecidableEq, Repr

abbrev Given := List (Key × String)

namespace Given

def value? (g : Given) (k : Key) : Option String := g.lookup k

def values (g : Given) (k : Key) : List String := (g.filter (·.1 == k)).map Prod.snd

def has (g : Given) (k : Key) : Bool := g.any (·.1 == k)

end Given

/-- What is known after some of the arguments: the options before the name of the task, that name,
the options and the operand after it, the option whose value comes next, and whether the rest are
operands. -/
structure Progress where
  outer : Given
  task : Option TaskKind
  inner : Given
  operand : Option String
  pending : Option Key
  closed : Bool

namespace Progress

def initial : Progress := ⟨[], none, [], none, none, false⟩

def keys (p : Progress) : List Key := (p.task.map TaskKind.keys).getD generalKeys

def here (p : Progress) : Given := if p.task.isSome then p.inner else p.outer

/-- An option with its value. -/
def give (p : Progress) (k : Key) (value : String) : Except Stop Progress :=
  if !k.accepts value then .error (.misused (.refusedValue k value))
  else if p.here.has k && !k.isList then .error (.misused (.givenTwice k))
  else
    let here := p.here ++ [(k, value)]
    .ok (if p.task.isSome then { p with inner := here, pending := none }
      else { p with outer := here, pending := none })

/-- An argument that is no option: the name of the task first, then its operand. -/
def place (p : Progress) (argument : String) : Except Stop Progress :=
  match p.task, p.operand with
  | none, _ =>
    if p.closed then .error (.misused (.excessOperand argument))
    else
      match TaskKind.ofName? argument with
      | some t => .ok { p with task := some t }
      | none => .error (.misused (.unknownTask argument))
  | some t, none =>
    if t ≠ .eval ∧ argument.isEmpty then .error (.misused (.emptyOperand t.operandName))
    else .ok { p with operand := some argument }
  | some _, some _ => .error (.misused (.excessOperand argument))

/-- An option by its name, with its value if an equals sign attaches one. -/
def long (p : Progress) (argument name : String) (attached : Option String) :
    Except Stop Progress :=
  let alone (s : Stop) : Except Stop Progress :=
    match attached with
    | none => .error s
    | some v => .error (.misused (.unneededValue name v))
  if name == "help" then alone .help
  else if name == "version" && p.task.isNone then alone .version
  else
    match p.keys.find? (·.name == name), attached with
    | none, _ => .error (.misused (.unknownOption argument))
    | some k, some v =>
      if k.hasValue then p.give k v else .error (.misused (.unneededValue name v))
    | some k, none => if k.hasValue then .ok { p with pending := some k } else p.give k ""

/-- An argument with one dash: the first letter after it counts. -/
def short (p : Progress) (argument : String) (letter : Char) : Except Stop Progress :=
  if letter == 'h' then .error .help
  else if letter == 'V' && p.task.isNone then .error .version
  else .error (.misused (.unknownOption argument))

/-- An argument where an option, the name of the task or an operand may stand. -/
def accept (p : Progress) (argument : String) : Except Stop Progress :=
  match argument.toList with
  | ['-', '-'] => .ok { p with closed := true }
  | '-' :: '-' :: body =>
    match Text.cutAt? ['='] body with
    | some (name, value) => p.long argument (String.ofList name) (some (String.ofList value))
    | none => p.long argument (String.ofList body) none
  | '-' :: letter :: _ => p.short argument letter
  | _ => p.place argument

/-- Whether an argument looks like an option; a lone dash does not. -/
def isDashed (argument : String) : Bool :=
  match argument.toList with
  | '-' :: _ :: _ => true
  | _ => false

def step (p : Progress) (argument : String) : Except Stop Progress :=
  match p.pending with
  | some k =>
    if isDashed argument then .error (.misused (.missingValue k)) else p.give k argument
  | none => if p.closed then p.place argument else p.accept argument

end Progress

/-- A task with all that it needs. Paths may be a dash for the standard input. -/
inductive Task where
  | prune (template : String) (values : Option String) (repeats : Repeats) (normalize : Bool)
  | eval (expression : String) (values : Option String)
  | exec (template : String) (database binds : Option String) (rowCount : Option Nat)
      (outputs : List String)

/-- A task, the file of preferences that is named for it and the format that is asked for. -/
structure Invocation where
  config : Option String
  format : Option Format
  task : Task

/-- The task of a kind with its operand and options. -/
def Task.ofGiven (kind : TaskKind) (operand : String) (g : Given) : Task :=
  match kind with
  | .prune =>
    .prune operand (g.value? .values)
      (Dict.ofList ((g.values .expansion).filterMap expansion?)) (g.has .normalize)
  | .eval => .eval operand (g.value? .values)
  | .exec =>
    .exec operand (g.value? .database) (g.value? .binds)
      ((g.value? .rowCount).bind fun n => count? n.toList) (g.values .output)

namespace Progress

/-- The value of an option that holds for every task: the one closest to the task. -/
def general? (p : Progress) (k : Key) : Option String := p.inner.value? k <|> p.outer.value? k

/-- After the last argument. The environment may name a file of preferences, which counts on each
side of the name of the task where no other one is named. -/
def finish (p : Progress) (environment : Option String) : Except Stop Invocation :=
  match p.pending, p.task, p.operand with
  | some k, _, _ => .error (.misused (.missingValue k))
  | none, none, _ => .error (.misused .missingTask)
  | none, some t, none => .error (.misused (.missingOperand t.operandName))
  | none, some t, some operand =>
    if environment = some "" ∧ !(p.inner.has .config && p.outer.has .config) then
      .error (.misused (.refusedValue .config ""))
    else
      .ok {
        config := p.general? .config <|> environment
        format := (p.general? .format).bind Format.ofName?
        task := Task.ofGiven t operand p.inner }

end Progress

def Invocation.ofArguments (environment : Option String) (arguments : List String) :
    Except Stop Invocation :=
  match arguments.foldlM Progress.step .initial with
  | .ok p => p.finish environment
  | .error s => .error s

end SqlTemplate.CommandLine
