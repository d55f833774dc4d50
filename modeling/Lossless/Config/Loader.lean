import Lossless.Config.Json
import Lossless.Config.Sections
import Lossless.Config.Toml
import Lossless.Config.Yaml
import Lossless.Files.Access

/-!
# Finding and loading configuration

A configuration file is named, or it is the first one found on the way from a start up to the root. The
extension of a file decides its format.
-/

namespace Lossless
namespace Config

open Files

/-- The names of configuration files, the preferred one first. -/
def fileNames : List Text :=
  ["reweave.toml".toList, ".reweaverc.json".toList, ".reweaverc.yaml".toList, ".reweaverc.yml".toList]

/-- How a configuration file is written. -/
inductive FileFormat
  | toml
  | json
  | yaml

/-- The format of a file with an extension. -/
def FileFormat.ofExtension? (extension : Text) : Option FileFormat :=
  if extension = "toml".toList then some .toml
  else if extension = "json".toList then some .json
  else if extension = "yaml".toList || extension = "yml".toList then some .yaml
  else none

/-- Read the value that a file describes. -/
def FileFormat.read? : FileFormat -> Text -> Option Value
  | toml => Value.ofToml?
  | json => Value.ofJson?
  | yaml => Value.ofYaml?

/-- What lists stand for in a format. -/
def FileFormat.positional : FileFormat -> Positional
  | toml => .atLeast
  | json => .exactly
  | yaml => .never

/-- Read the content of a configuration file. -/
def Configuration.ofContent
    (path : Path)
    (content : Text) : Except Error Configuration :=
  let failed (detail : String) : Error :=
    .ofCause (.config ("Failed to load config from '".toList ++ path.text ++ ['\''] ++ detail.toList))
  match path.extension?.bind FileFormat.ofExtension? with
  | none => .error (failed ": Unsupported file extension (expected .toml, .json, .yaml or .yml)")
  | some format =>
      match (format.read? content).bind (Configuration.ofValue? format.positional) with
      | some configuration => .ok configuration
      | none => .error (failed "")

variable {m : Type -> Type} [Monad m] [Access m]

/-- Load a configuration file. -/
def loadFile (path : Path) : m (Except Error Configuration) := do
  return (<- readSource path).bind (Configuration.ofContent path)

/-- A directory and those above it. -/
def directoriesUp (path : Path) : List Path :=
  let components := path.components
  (List.range components.length).map fun above =>
    .ofComponents (components.take (components.length - above))

/-- The first path of a list under which a file stands. -/
def firstFile : List Path -> m (Option Path)
  | [] => return none
  | path :: rest => do
      if <- isFile path then return some path
      else firstFile rest

/-- The configuration file that holds for a start. -/
def findFile (start : Path) : m (Except Error (Option Path)) := do
  match <- Access.canonical start with
  | .error failure =>
      return .error (.ofCause (.config ("Invalid path: ".toList ++ failure.message)))
  | .ok directory =>
      return .ok (<- firstFile ((directoriesUp directory).flatMap fun above => fileNames.map above.join))

/-- Load the configuration of a named file, or the one that holds for a start; without a file nothing is
set. -/
def load
    (named : Option Path)
    (start : Path) : m (Except Error Configuration) := do
  match named with
  | some path =>
      if <- doesExist path then loadFile path
      else return .error (.ofCause (.config ("Config file not found: ".toList ++ path.text)))
  | none =>
      match <- findFile start with
      | .error error => return .error error
      | .ok (some path) => loadFile path
      | .ok none => return .ok {}

end Config
end Lossless
