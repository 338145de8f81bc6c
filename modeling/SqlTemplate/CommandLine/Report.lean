import SqlTemplate.Batch
import SqlTemplate.CommandLine.Arguments
import SqlTemplate.Placeholder
import SqlTemplate.Value.Json
/-!
Reports: what a task found, written as lines for a reader or as a JSON document.
-/

namespace SqlTemplate

def Output.toJson : Output → Json
  | .scalar v => v.toJson
  | .array values => .arr (values.map Value.toJson)

namespace Result

def columns (r : Result) : List String := (r.rows.head?.map (·.columns)).getD []

/-- What an execution did, as a document. -/
def toJson (r : Result) : Json := .obj [
  ("rows_affected", .int r.rowsAffected),
  ("columns", .arr (r.columns.map .text)),
  ("rows", .arr (r.rows.map fun row => .arr (row.values.map Value.toJson))),
  ("out_values", .obj (r.outputs.entries.map fun (name, o) => (name, o.toJson)))]

end Result

namespace CommandLine

def cell : Json → String
  | .text s => s
  | .null => "NULL"
  | j => j.compact

def tabbed (cells : List String) : String := "\t".intercalate cells

/-- The lines of a result: its rows under the names of their columns, if it has columns, the number
of rows that were changed, and the outputs. -/
def resultLines (r : Result) : List String :=
  let table :=
    if r.columns.isEmpty then []
    else tabbed r.columns :: r.rows.map fun row => tabbed (row.values.map fun v => cell v.toJson)
  table ++ ("rows affected: " ++ toString r.rowsAffected) ::
    r.outputs.entries.map fun (name, o) => ":" ++ name ++ " = " ++ o.toJson.compact

/-- What a task found: the text of a statement, the truth of a condition or what an execution
did. -/
inductive Report where
  | pruned (sql : String)
  | judged (expression : String) (result : Bool)
  | executed (r : Result)

namespace Report

def lines : Report → List String
  | .pruned sql => [sql]
  | .judged _ result => [if result then "true" else "false"]
  | .executed r => resultLines r

/-- The document of a report. -/
def toJson : Report → Json
  | .pruned sql => .obj [
      ("sql", .text sql),
      ("used_parameters", .arr ((Placeholder.used sql.toList).map .text))]
  | .judged expression result => .obj [("expression", .text expression), ("result", .bool result)]
  | .executed r => r.toJson

def write (r : Report) : Format → String
  | .text => String.join (r.lines.map (· ++ "\n"))
  | .json => r.toJson.pretty ++ "\n"

end Report

end CommandLine

end SqlTemplate
