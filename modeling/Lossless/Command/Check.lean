import Lossless.Command.Configuration
import Lossless.Command.Summary
import Lossless.Files.Access
import Lossless.Java.Language
import Lossless.Json.Language

/-!
# Checking files

A file is as it should be when its tree prints as its source.
-/

namespace Lossless
namespace Command

open Files

/-- Parse a source and print it again, in the language of its path. -/
def reprintSource
    (source : Text)
    (path : Path) : Except Error Text :=
  if path.extension? = some "json".toList then Language.reprint Json.Tree source path
  else Language.reprint Java.Tree source path

variable {m : Type -> Type} [Monad m] [Access m]

/-- Compare a file with its printed tree. -/
def checkFile (path : Path) : m (Path × Except Error Outcome) := do
  let source <- readSource path
  return (path, source.bind fun source => (reprintSource source path).map (Outcome.compare source))

/-- Report a file whose printed tree differs. -/
def reportMismatch
    (path : Path)
    (old new : Text) : Session m Bool := do
  Session.sayLine ("mismatch ".toList ++ path.text)
  Session.sayLine (Diff.render path old new)
  return false

/-- Check some files. -/
def checkFiles (files : List Path) : Session m Ending := do
  let outcomes <- (files.mapM checkFile : m _)
  let summary <- reportFiles "Failed to check".toList reportMismatch outcomes
  Session.say (summary.render "Round-trip mismatches".toList)
  return { isSuccess := summary.isClean, isTimed := true }

/-- Check the files of a selection. -/
def check
    (named : Option Path)
    (selection : Selection) : Session m Ending := do
  let (_, files) <- selectFiles named selection ["java".toList, "json".toList]
  if files.isEmpty then
    Session.sayLine "No source files found in specified paths.".toList
    return {}
  else checkFiles files

end Command
end Lossless
