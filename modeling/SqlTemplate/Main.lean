import SqlTemplate.CommandLine.Run
/-!
The program: the command line on the machine that it runs on.
-/

namespace SqlTemplate.CommandLine

/-- The result of an action on the machine, or the words of what went wrong. -/
def attempt {α : Type} (action : IO α) : IO (Except String α) := do
  try return .ok (← action)
  catch e => return .error e.toString

/-- Whether something is at a path. -/
def isPresent (path : String) : IO Bool := do
  try
    let _ ← IO.FS.Handle.mk path .read
    return true
  catch
    | .noFileOrDirectory .. => return false
    | _ => return true

def thisMachine : Host IO where
  input := attempt do (← IO.getStdin).readToEnd
  present := isPresent
  read path := attempt (IO.FS.readFile path)
  write path text := return (← attempt (IO.FS.writeFile path text)).toBool

/-- Runs the command line on this machine: the exit code of the run. -/
def runHere (arguments : List String) : IO UInt32 := do
  let standardConfig :=
    Preferences.standardPath? (← IO.getEnv "XDG_CONFIG_HOME") (← IO.getEnv "HOME")
  let ending ← run thisMachine (← IO.getEnv "SQLWEAVE_CONFIG") standardConfig arguments
  (← IO.getStdout).putStr ending.output
  (← IO.getStderr).putStr ending.errors
  return ending.code

end SqlTemplate.CommandLine

def main (arguments : List String) : IO UInt32 := SqlTemplate.CommandLine.runHere arguments
