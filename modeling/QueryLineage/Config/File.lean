import QueryLineage.Config
import QueryLineage.Yaml.Document

/-!
# Configuration files

A configuration is read from a file, or from the first file of a standard name in a directory.
-/

namespace QueryLineage

inductive ConfigError
  | missing (path : String)
  | unreadable (path : String) (reason : FileError)
  /-- The text is no YAML, or has not the shape of a configuration. -/
  | malformed
  | invalid (defect : Config.Defect)
deriving DecidableEq

def ConfigError.message : ConfigError → String
  | .missing path => "[C001] Config file not found: " ++ path
  | .unreadable path reason => s!"[C005] Failed to read '{path}': {reason.message}"
  | .malformed => "[C006] YAML parse error"
  | .invalid defect => "[C002] Invalid config: " ++ defect.message

namespace Config

def ofText (text : String) : Except ConfigError Config := do
  let some c := Yaml.parse? text >>= ofYaml | throw .malformed
  c.validate.mapError .invalid
  return c

def ofFile (path : String) : FileText → Except ConfigError Config
  | .ok text => ofText text
  | .error .missing => .error (.missing path)
  | .error reason => .error (.unreadable path reason)

/-- The names of configuration files, the preferred one first. -/
def fileNames : List String := ["strata.yml", "strata.yaml"]

/-- The first configuration file in a directory, as the paths to all of them were read. -/
def fileAmong? (read : List (String × FileText)) : Option (String × FileText) :=
  read.find? (·.2.isPresent)

/-- Reads the files of the standard names in a directory. -/
def filesIn {m : Type → Type} [Monad m] (fileAt : String → m FileText) (dir : String) :
    m (List (String × FileText)) :=
  fileNames.mapM fun name => do
    let path := Path.under dir name
    return (path, ← fileAt path)

def ofDirectory {m : Type → Type} [Monad m] (fileAt : String → m FileText) (dir : String) :
    m (Except ConfigError Config) := do
  match fileAmong? (← filesIn fileAt dir) with
  | some (path, text) => return ofFile path text
  | none => return .error (.missing (Path.under dir (fileNames.headD "")))

end Config

end QueryLineage
