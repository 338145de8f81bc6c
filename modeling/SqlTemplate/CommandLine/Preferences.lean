import SqlTemplate.CommandLine.Arguments
import SqlTemplate.CommandLine.Failure
import SqlTemplate.Settings
/-!
Preferences: what a configuration file says about every run, namely the format of answers, the
settings of connections and whether pruning collapses white space. What the file leaves out keeps
its default, and keys that mean nothing here are passed over.
-/

namespace SqlTemplate.CommandLine

/-- What holds for a run where its arguments say nothing. -/
structure Preferences where
  format : Option Format
  settings : Settings
  normalize : Bool

namespace Preferences

def standard : Preferences := ⟨none, .standard, false⟩

/-- Whether a value, the section on pruning, asks for white space to be collapsed. -/
def normalize? (v : Toml) : Option Bool :=
  match v.fields? ["normalize"] with
  | some [field] => Toml.orElse Toml.bool? false field
  | _ => none

/-- The name of the format, the settings and whether to normalize, as the pairs of a document
have them. -/
def parts? (es : Toml.Entries) : Option (Option String × Settings × Bool) := do
  some (← Toml.orElse (fun v => v.text?.map some) none (es.lookup "format"),
    ← Toml.orElse Settings.ofToml? .standard (es.lookup "engine"),
    ← Toml.orElse normalize? false (es.lookup "prune"))

/-- The preferences of a document, found at a path. The name of the format may be in any case of
ASCII letters. -/
def read (path document : String) : Except Failure Preferences :=
  match (Toml.read? document).bind parts? with
  | none => .error (.configMalformed path)
  | some (none, settings, normalize) => .ok ⟨none, settings, normalize⟩
  | some (some name, settings, normalize) =>
    match Format.ofName? (name.map Engine.lowerAscii) with
    | some format => .ok ⟨some format, settings, normalize⟩
    | none => .error (.unknownFormat name)

/-- Where the configuration file of a user is, given the directory for such files, if it is an
absolute path, and the user's own directory. -/
def standardPath? (base home : Option String) : Option String :=
  let isAbsolute (path : String) : Bool := path.toList.head? == some '/'
  let place (directory : String) : String := directory ++ "/sqlweave/config.toml"
  match base.filter isAbsolute with
  | some directory => some (place directory)
  | none => (home.filter (!·.isEmpty)).map fun directory => place (directory ++ "/.config")

end Preferences

end SqlTemplate.CommandLine
