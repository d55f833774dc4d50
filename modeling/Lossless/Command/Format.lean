import Lossless.Command.Configuration
import Lossless.Command.Summary
import Lossless.Files.Access

/-!
# Formatting files

All files are read and formatted first; an overflow in any of them ends the program. Then each one that differs
from its formatted text is written, or only reported.
-/

namespace Lossless
namespace Command

open Files Config

/-- The settings for formatting; options of the command line come before those of the configuration. -/
def FormatOptions.settings
    (options : FormatOptions)
    (configuration : Configuration) : FormatterSettings :=
  let configured := configuration.formatterSettings
  { configured with
    indentSize := options.indentSize <|> configured.indentSize
    useTabCharacter := if options.usesTabs then some true else configured.useTabCharacter }

variable {m : Type -> Type} [Monad m] [Access m]

/-- Compare a file with its formatted text. -/
def formatFile
    (settings : FormatterSettings)
    (path : Path) : m (Path × Except Error Outcome) := do
  let source <- readSource path
  return (path, source.bind fun source =>
    (Format.formatSource settings source path).map (Outcome.compare source))

/-- Write or report a file that is not formatted. -/
def onUnformatted
    (mode : FormatMode)
    (path : Path)
    (old new : Text) : Session m Bool := do
  match mode with
  | .diff =>
      Session.sayLine (Diff.render path old new)
      return false
  | .check =>
      Session.sayLine ("needs formatting ".toList ++ path.text)
      return false
  | .write =>
      let failed (failure : Failure) : List Text :=
        ["Failed to write ".toList ++ path.text, failure.message]
      Session.orStop failed (<- (writeText path new : m _))
      return true

/-- Format some files. -/
def formatFiles
    (settings : FormatterSettings)
    (mode : FormatMode)
    (files : List Path) : Session m (Summary × Ending) := do
  let outcomes <- (files.mapM (formatFile settings) : m _)
  if outcomes.any fun entry => overflows entry.2 then throw .overflowed
  let summary <- reportFiles "Failed to format".toList (onUnformatted mode) outcomes
  Session.say (summary.render "Files needing formatting".toList)
  let isSuccess := summary.failed = 0 && (mode = .write || summary.changed = 0)
  return (summary, { isSuccess, isTimed := true })

/-- Format the files of a selection. -/
def format
    (named : Option Path)
    (options : FormatOptions)
    (mode : FormatMode) : Session m Ending := do
  let (configuration, files) <- selectFiles named options.selection ["java".toList]
  if files.isEmpty then
    Session.sayLine "No Java files found in specified paths.".toList
    return {}
  else
    let (_, ending) <- formatFiles (options.settings configuration) mode files
    return ending

end Command
end Lossless
