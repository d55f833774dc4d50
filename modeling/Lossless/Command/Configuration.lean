import Lossless.Command.Invocation
import Lossless.Command.Session
import Lossless.Config.Loader
import Lossless.Config.Toml.Written
import Lossless.Files.Discovery

/-!
# Configuration of a command

The configuration and the files that a command works on, and the tasks about the configuration itself.
-/

namespace Lossless
namespace Command

open Files Config

variable {m : Type -> Type} [Monad m] [Access m]

/-!
## The configuration and the files of a command

Without a named configuration file the one is taken that holds for the first path. Patterns of the command
line replace those of the configuration.
-/

/-- The working directory. -/
def workingDirectory : Path := ⟨['.']⟩

/-- The paths of a selection; without any it is the working directory. -/
def Selection.pathsOrHere (selection : Selection) : List Path :=
  if selection.paths.isEmpty then [workingDirectory] else selection.paths

/-- Where to start looking for a configuration file: a directory that is the first path or holds it. -/
def configurationStart (paths : List Path) : m Path := do
  match paths with
  | [] => return workingDirectory
  | first :: _ =>
      match <- kind? first with
      | some .file => return if first.parent.text.isEmpty then workingDirectory else first.parent
      | some .directory => return first
      | _ => return workingDirectory

/-- Load the configuration that is named, or that holds for a start. -/
def loadConfiguration
    (named : Option Path)
    (start : Path) : Session m Configuration := do
  Session.orStop Error.messages (<- (Config.load named start : m _))

/-- The filter of a selection. -/
def filterOf
    (configuration : Configuration)
    (selection : Selection) : Except DiscoveryFailure Filter :=
  let choose (given : List Text) (configured : Option (List Text)) : List Text :=
    if given.isEmpty then configured.getD [] else given
  Filter.ofTexts (choose selection.included configuration.fileSettings.included)
    (choose selection.excluded configuration.fileSettings.excluded)

/-- The configuration of a command, and the files with one of some extensions that it works on. -/
def selectFiles
    (named : Option Path)
    (selection : Selection)
    (extensions : List Text) : Session m (Configuration × List Path) := do
  let paths := selection.pathsOrHere
  let configuration <- loadConfiguration named (<- (configurationStart paths : m Path))
  let filter <- Session.orStop DiscoveryFailure.messages (filterOf configuration selection)
  let found <- (discover filter extensions paths : m _)
  return (configuration, <- Session.orStop DiscoveryFailure.messages found)

/-! ## Tasks about the configuration -/

/-- The name of a new configuration file. -/
def StarterFormat.fileName : StarterFormat -> Text
  | toml => "reweave.toml".toList
  | json => ".reweaverc.json".toList

/-- The content of a new configuration file. -/
def StarterFormat.content : StarterFormat -> Text
  | toml => Configuration.starter.toValue.toToml
  | json => Configuration.starter.toValue.toJson

/-- Every setting of the formatter spelled out. -/
def resolved (configuration : Configuration) : Configuration :=
  { configuration with
    formatter := some (.ofStyles (configuration.formatterSettings.applyTo {})) }

/-- A truth value in words. -/
def truthText (value : Bool) : Text :=
  if value then "true".toList else "false".toList

/-- Make a configuration file; one that is there is kept unless it may be replaced. -/
def createConfiguration
    (format : StarterFormat)
    (isForced : Bool) : Session m Ending := do
  let name := format.fileName
  let isThere <- (doesExist ⟨name⟩ : m Bool)
  if isThere && !isForced then
    throw (.failed ["Configuration file '".toList ++ name ++
      "' already exists. Use --force to overwrite.".toList])
  let failed (failure : Failure) : List Text := ["Failed to write ".toList ++ name, failure.message]
  Session.orStop failed (<- (writeText ⟨name⟩ format.content : m _))
  Session.sayLine ("Created configuration file: ".toList ++ name)
  return {}

/-- Show the configuration that holds for the working directory. -/
def showConfiguration
    (named : Option Path)
    (isResolved : Bool) : Session m Ending := do
  let configuration <- loadConfiguration named workingDirectory
  let shown := if isResolved then resolved configuration else configuration
  Session.sayLine shown.toValue.toJson
  return {}

/-- Validate the configuration that holds for the working directory. -/
def validateConfiguration (named : Option Path) : Session m Ending := do
  let configuration <-
    Session.within "Configuration validation failed".toList (loadConfiguration named workingDirectory)
  let indents := (configuration.formatterSettings.applyTo {}).indents
  Session.sayLine "Configuration is valid".toList
  Session.sayLine ("   Indent size: ".toList ++ Text.decimal indents.indentSize)
  Session.sayLine ("   Use tabs: ".toList ++ truthText indents.useTabCharacter)
  return {}

/-- Show the schema of configuration files. -/
def showSchema : Session m Ending := do
  Session.sayLine Configuration.schemaValue.toJson
  return {}

end Command
end Lossless
