import SqlTemplate.Error
/-!
Failures of a run: the causes for which it gives no answer, and what is said of each. Some of them
end in words that come from the machine that the run is on.
-/

namespace SqlTemplate.CommandLine

/-- Why a run gives no answer. A cause in words comes from outside. -/
inductive Failure where
  | refused (e : Error)
  | database (f : Engine.Fault)
  | unreadable (path cause : String)
  | notObject (path : String)
  | configUnreadable (path cause : String)
  | configMalformed (path : String)
  | configMissing (path : String)
  | unknownFormat (name : String)
  deriving DecidableEq, Repr

namespace Failure

/-- What is said before the cause. -/
def heading : Failure → String
  | .refused e => e.withCode
  | .database f => f.message
  | .unreadable path _ => "failed to read " ++ path ++ ":"
  | .notObject path => path ++ " must hold a JSON object:"
  | .configUnreadable path _ => "failed to read CLI config " ++ path ++ ":"
  | .configMalformed path => "failed to parse CLI config " ++ path ++ ":"
  | .configMissing path => "CLI config " ++ path ++ " does not exist"
  | .unknownFormat name => "output format '" ++ name ++ "' is invalid; expected 'text' or 'json'"

def cause? : Failure → Option String
  | .unreadable _ cause | .configUnreadable _ cause => some cause
  | .notObject _ => some "the text is something else"
  | .configMalformed _ => some "no TOML document, or a value of the wrong kind"
  | _ => none

def rowLines : Failure → List String
  | .refused e =>
    (e.failures?.getD []).map fun (row, f) => "  row " ++ toString row ++ ": " ++ f.message ++ "\n"
  | _ => []

def report (f : Failure) : String :=
  "error: " ++ f.heading ++ ((f.cause?.map (" " ++ ·)).getD "") ++ "\n" ++ String.join f.rowLines

end Failure

end SqlTemplate.CommandLine
