import SqlTemplate.Batch
import SqlTemplate.Template.Prune
/-!
Commands: a statement or template text with its parameters. A template is pruned with the values
that are bound when it is rendered, so the same command gives other statements as its values change.
-/

namespace SqlTemplate

/-- A text with its parameters, and the lists that its expansions run over with their lengths. -/
structure Command where
  text : String
  catalog : Catalog
  repeats : Repeats
  lists : Context

namespace Command

def ofText (text : String) : Command := ⟨text, ∅, ∅, ∅⟩

def withCount (text : String) (n : Nat) : Except Error Command :=
  match Catalog.withCount n with
  | .ok catalog => .ok { ofText text with catalog }
  | .error e => .error e

def setText (c : Command) (text : String) : Command :=
  { c with text, catalog := c.catalog.reset }

def declare (c : Command) (d : Declaration) : Except Error Unit × Command :=
  let (answer, catalog) := c.catalog.declare d
  (answer, { c with catalog })

/-- The command with all of the declarations, or why the first that is refused is. -/
def declareAll (c : Command) : List Declaration → Except Error Command
  | [] => .ok c
  | d :: ds =>
    match c.declare d with
    | (.ok (), c) => c.declareAll ds
    | (.error e, _) => .error e

/-- Declares the values as scalars whose names end in numbers from `i` on, up to the first that is
refused. -/
def bindNumbered (catalog : Catalog) (name : String) (i : Nat) :
    List Value → Except Error Unit × Catalog
  | [] => (.ok (), catalog)
  | v :: rest =>
    match catalog.bindScalar (Placeholder.numbered name i) v with
    | (.error e, d) => (.error e, d)
    | (.ok (), d) => bindNumbered d name (i + 1) rest

/-- Declares a list that an expansion runs over: each value becomes a scalar of its own, and the
list is known by its name if all of them were taken. -/
def bindList (c : Command) (name : String) (values : List Value) : Except Error Unit × Command :=
  match bindNumbered c.catalog name 0 values with
  | (.error e, catalog) => (.error e, { c with catalog })
  | (.ok (), catalog) =>
    (.ok (), { c with
      catalog
      repeats := c.repeats.insert name values.length
      lists := c.lists.insert name (.seq values) })

/-- The values that conditions see: a list hides an input of its name. -/
def context (c : Command) : Context := c.catalog.context.insertAll c.lists.entries

/-- The statement that would be sent: the pruned template, or the text if it is no template. -/
def render (c : Command) : Except Error String :=
  if Template.isTemplate c.text.toList then Template.prune c.text c.context c.repeats
  else .ok c.text

/-- The names that the rendered statement uses, ascending. -/
def used (c : Command) : Except Error (List String) :=
  c.render.map fun sql => Placeholder.used sql.toList

/-- Renders the statement and executes it. -/
def execute {σ : Type} (c : Command) (engine : Engine σ) (s : σ) :
    Except Error Result × Command × σ :=
  match c.render with
  | .error e => (.error e, c, s)
  | .ok sql =>
    let (answer, catalog, t) := c.catalog.execute sql (Placeholder.used sql.toList) engine s
    (answer, { c with catalog }, t)

end Command

end SqlTemplate
