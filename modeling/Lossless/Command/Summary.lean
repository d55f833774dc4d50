import Lossless.Command.Session
import Lossless.Diff.Lines

/-!
# Reports about files

Every file that is worked on has an outcome; the summary counts them.
-/

namespace Lossless
namespace Command

/-- What became of a file that could be read and parsed. -/
inductive Outcome
  | unchanged
  | changed (old new : Text)
  deriving DecidableEq

/-- The outcome for a text and what was made of it. -/
def Outcome.compare (old new : Text) : Outcome :=
  if old = new then .unchanged else .changed old new

/-- How many files had which outcome. -/
structure Summary where
  checked : Nat := 0
  changed : Nat := 0
  written : Nat := 0
  failed : Nat := 0
  deriving DecidableEq

namespace Summary

/-- Every file is as it should be. -/
def isClean (summary : Summary) : Bool :=
  summary.changed = 0 && summary.failed = 0

/-- A line with a number. -/
def count
    (label : Text)
    (number : Nat) : Text :=
  [' ', ' '] ++ label ++ [':', ' '] ++ Text.decimal number ++ ['\n']

/-- A line with a number, unless it is zero. -/
def countIfAny
    (label : Text)
    (number : Nat) : Text :=
  if number = 0 then [] else count label number

/-- The summary in words; the label is for the changed files. -/
def render
    (label : Text)
    (summary : Summary) : Text :=
  "\nSummary:\n".toList ++ count "Files checked".toList summary.checked ++
    countIfAny label summary.changed ++ countIfAny "Files written".toList summary.written ++
    countIfAny "Failed".toList summary.failed ++
    (if summary.isClean then "  All files OK\n".toList else [])

end Summary

/-- A time in words, given in nanoseconds. -/
def describeDuration (nanoseconds : Nat) : Text :=
  let milliseconds := nanoseconds / 1000000
  if milliseconds < 1000 then Text.decimal milliseconds ++ ['m', 's']
  else
    let hundredths := (nanoseconds + 5000000) / 10000000
    let fraction := Text.decimal (hundredths % 100)
    Text.decimal (hundredths / 100) ++ '.' :: List.replicate (2 - fraction.length) '0' ++ fraction ++ ['s']

variable {m : Type -> Type} [Monad m]

/-- Report on a file and count it. A failure that is confined to the file is reported; another one stops the
command with a message about the file. A changed file is reported by `onChange`, which says whether it was
written. -/
def reportFile
    (failed : Text)
    (onChange : Path -> Text -> Text -> Session m Bool)
    (summary : Summary)
    (file : Path × Except Error Outcome) : Session m Summary := do
  let (path, outcome) := file
  match UnitOutcome.ofExcept outcome with
  | .skipped error =>
      Session.sayLine ("error ".toList ++ path.text ++ [':', ' '] ++ error.message)
      return { summary with failed := summary.failed + 1 }
  | .stopped error => throw (.failed ((failed ++ ' ' :: path.text) :: error.messages))
  | .done .unchanged => return summary
  | .done (.changed old new) =>
      let isWritten <- onChange path old new
      return { summary with changed := summary.changed + 1, written := summary.written + isWritten.toNat }

/-- Report on files one after the other and count them. -/
def reportFiles
    (failed : Text)
    (onChange : Path -> Text -> Text -> Session m Bool)
    (files : List (Path × Except Error Outcome)) : Session m Summary :=
  files.foldlM (reportFile failed onChange) { checked := files.length }

end Command
end Lossless
