import SqlTemplate.Error
/-!
Catalogs of parameters: the named values that a statement is executed with. A name keeps its shape
and its family once it has them; an array has as many values as there are rows in a batch. A catalog
that was executed waits for a new declaration or a reset before it is executed again.
-/

namespace SqlTemplate

open Engine (Direction)

/-- What a parameter holds: one value for every row, a value per row, or values by number that go
whole with every row. -/
inductive Payload where
  | scalar (v : Value)
  | array (values : List Value)
  | assoc (entries : Dict UInt32 Value)

namespace Payload

def shape : Payload → Shape
  | .scalar _ => .scalar
  | .array _ => .array
  | .assoc _ => .assoc

def elements : Payload → List Value
  | .scalar v => [v]
  | .array values => values
  | .assoc entries => entries.values

/-- The payload as conditions see it: a scalar is its value, all else a sequence. -/
def visible : Payload → Value
  | .scalar v => v
  | p => .seq p.elements

end Payload

/-- A declared parameter. The capacity is that of an associative output; the family is that of the
values it holds or once held. -/
structure Spec where
  name : String
  payload : Payload
  direction : Direction
  capacity : Option Nat
  family : Option Family

inductive Phase where
  | building
  | executed
  deriving DecidableEq, Repr

def Phase.name : Phase → String
  | .building => "Building"
  | .executed => "Executed"

/-- Parameters in the order of their first declaration, the place of each name among them, and the
number of rows in a batch once it is known. -/
structure Catalog where
  specs : List Spec
  index : Dict String Nat
  count : Option Nat
  phase : Phase

/-- A declaration of a parameter by name. Associative values may be absent. -/
inductive Declaration where
  | scalar (name : String) (v : Value)
  | array (name : String) (values : List Value)
  | assoc (name : String) (entries : Option (List (UInt32 × Value)))
  | assocList (name : String) (values : Option (List Value))
  | output (name : String)
  | assocOutput (name : String) (capacity : Nat)

def Declaration.name : Declaration → String
  | .scalar name _ | .array name _ | .assoc name _ | .assocList name _ | .output name
  | .assocOutput name _ => name

def numberedEntries (values : List Value) : List (UInt32 × Value) :=
  values.zipIdx.map fun e => (UInt32.ofNat e.2, e.1)

/-- The one family of the values that have a family, from left to right and given what was found
so far. -/
def commonFamily (found : Option Family) : List Value → Except Misuse (Option Family)
  | [] => .ok found
  | .seq _ :: _ => .error .nested
  | v :: rest =>
    match found, v.family? with
    | _, none => commonFamily found rest
    | none, some f => commonFamily (some f) rest
    | some e, some f => if e = f then commonFamily found rest else .error (.mixed e f)

/-- The direction of a parameter that also takes values in. -/
def Engine.Direction.withInput : Direction → Direction
  | .input => .input
  | _ => .both

/-- The direction of a parameter that also gives values out. -/
def Engine.Direction.withOutput : Direction → Direction
  | .output => .output
  | _ => .both

namespace Catalog

/-- The catalog without parameters; the first array sets the number of rows. -/
def empty : Catalog := ⟨[], ∅, none, .building⟩

instance : EmptyCollection Catalog := ⟨empty⟩
instance : Inhabited Catalog := ⟨empty⟩

/-- The empty catalog for a batch of so many rows, at least one. -/
def withCount (n : Nat) : Except Error Catalog :=
  if n = 0 then .error (.argument "array_bind_count" .zeroCount)
  else .ok { empty with count := some n }

def get? (c : Catalog) (name : String) : Option Spec :=
  (c.index.get? name).bind fun i => c.specs[i]?

def declares (c : Catalog) (name : String) : Bool := c.index.contains name

def hasArray (c : Catalog) : Bool := c.specs.any (·.payload.shape == .array)

def update (c : Catalog) (name : String) (f : Spec → Spec) : Catalog :=
  match c.index.get? name with
  | some i => { c with specs := c.specs.modify i f }
  | none => c

def push (c : Catalog) (s : Spec) : Catalog :=
  { c with specs := c.specs ++ [s], index := c.index.insert s.name c.specs.length }

def reset (c : Catalog) : Catalog := { c with phase := .building }

/-- Why a declared parameter cannot take a payload of a family: its shape is another, or both have
a family and they differ. -/
def clash? (s : Spec) (payload : Payload) (family : Option Family) : Option Misuse :=
  if s.payload.shape ≠ payload.shape then some (.otherShape s.payload.shape payload.shape)
  else
    match s.family, family with
    | some declared, some asked =>
      if declared = asked then none else some (.otherFamily declared asked)
    | _, _ => none

/-- A declared parameter with a new payload: it takes values in from now on, and keeps a family
that it has. -/
def rebound (payload : Payload) (family : Option Family) (s : Spec) : Spec :=
  { s with payload, family := s.family.or family, direction := s.direction.withInput }

/-- Gives an input its payload: a new parameter, or a declared one that can take it. The catalog is
ready for its next execution in either case, and also if the parameter refuses. -/
def bind (c : Catalog) (name : String) (payload : Payload) (family : Option Family) :
    Except Error Unit × Catalog :=
  match c.get? name with
  | none => (.ok (), c.reset.push ⟨name, payload, .input, none, family⟩)
  | some s =>
    match clash? s payload family with
    | some misuse => (.error (.argument name misuse), c.reset)
    | none => (.ok (), c.reset.update name (rebound payload family))

/-- Declares a value for every row. Null is a value; a sequence is not. -/
def bindScalar (c : Catalog) (name : String) (v : Value) : Except Error Unit × Catalog :=
  match v with
  | .seq _ => (.error (.argument name .sequence), c)
  | v => c.bind name (.scalar v) v.family?

/-- The values of an array for a batch: as many as the batch has rows, or all of them if the number
of rows is not known yet. -/
def rowValues (count : Option Nat) (values : List Value) : Except Misuse (List Value) :=
  match count with
  | some n => if values.length < n then .error (.tooFew n values.length) else .ok (values.take n)
  | none => if values.isEmpty then .error .noValues else .ok values

/-- Declares a value per row. The first array sets the number of rows; values beyond it are
dropped. -/
def bindArray (c : Catalog) (name : String) (values : List Value) : Except Error Unit × Catalog :=
  match rowValues c.count values with
  | .error misuse => (.error (.argument name misuse), c)
  | .ok kept =>
    match commonFamily none kept with
    | .error misuse => (.error (.argument name misuse), c)
    | .ok family =>
      match c.bind name (.array kept) family with
      | (.error e, d) => (.error e, d)
      | (.ok (), d) => (.ok (), { d with count := some kept.length })

/-- Declares values by number, at least one; the last value of a number stays. -/
def bindAssoc (c : Catalog) (name : String) (entries : Option (List (UInt32 × Value))) :
    Except Error Unit × Catalog :=
  match entries with
  | none => (.error (.nullArgument name), c)
  | some es =>
    let entries := Dict.ofList es
    if entries.isEmpty then (.error (.outOfRange name .noElement), c)
    else
      match commonFamily none entries.values with
      | .error misuse => (.error (.argument name misuse), c)
      | .ok family => c.bind name (.assoc entries) family

/-- Declares an output of one value; an input gives a value out as well from now on. -/
def declareOutput (c : Catalog) (name : String) : Except Error Unit × Catalog :=
  match c.get? name with
  | none => (.ok (), c.reset.push ⟨name, .scalar .null, .output, none, none⟩)
  | some s =>
    if s.payload.shape = .assoc then (.error (.argument name .assocOutput), c)
    else (.ok (), c.reset.update name fun s => { s with direction := s.direction.withOutput })

/-- Declares an associative output of up to `capacity` values, at least one. -/
def declareAssocOutput (c : Catalog) (name : String) (capacity : Nat) :
    Except Error Unit × Catalog :=
  if capacity = 0 then (.error (.outOfRange name .noCapacity), c)
  else
    match c.get? name with
    | none => (.ok (), c.reset.push ⟨name, .assoc ∅, .output, some capacity, none⟩)
    | some s =>
      if s.payload.shape ≠ .assoc then (.error (.argument name (.notAssoc s.payload.shape)), c)
      else
        (.ok (), c.reset.update name fun s =>
          { s with direction := s.direction.withOutput, capacity := some capacity })

/-- Carries out a declaration. -/
def declare (c : Catalog) : Declaration → Except Error Unit × Catalog
  | .scalar name v => c.bindScalar name v
  | .array name values => c.bindArray name values
  | .assoc name entries => c.bindAssoc name entries
  | .assocList name values => c.bindAssoc name (values.map numberedEntries)
  | .output name => c.declareOutput name
  | .assocOutput name capacity => c.declareAssocOutput name capacity

/-- Every one of the names is declared; else the error is about the first that is not. -/
def validate (c : Catalog) (names : List String) : Except Error Unit :=
  match names.find? fun name => !c.declares name with
  | some name => .error (.unbound name)
  | none => .ok ()

/-- The values that the inputs hold, as conditions see them. -/
def context (c : Catalog) : Context :=
  Dict.ofList ((c.specs.filter (·.direction.isInput)).map fun s => (s.name, s.payload.visible))

end Catalog

end SqlTemplate
