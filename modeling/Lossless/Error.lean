import Lossless.Identity
import Lossless.Text.Numeral

/-!
# Errors

An error has a cause and, when it arose during a visit, the path of frames down to where it arose. A path
is recorded once: an error that has one keeps it. An overflow is no error that a program could handle, so
nothing but its cause ever shows.
-/

namespace Lossless

/-- What went wrong. -/
inductive Cause
  /-- Two elements of one padded list have the same identifier. -/
  | duplicateId (id : Stamp)
  | notImplemented (what : Text)
  /-- Raised by a visitor. -/
  | visitor (message : Text)
  /-- A source text is not in the language; line and column count from one. -/
  | parse (message : Text) (line column : Nat)
  | config (message : Text)
  /-- A file could not be read or written. -/
  | io (path : Text) (reason : Text)
  | internal (message : Text)
  /-- A sum does not fit in a machine word; this ends the program. -/
  | overflow
  deriving DecidableEq

/-- The kinds of frames from the innermost one out to the root. -/
structure CursorPath where
  segments : List Text
  deriving DecidableEq

/-- The path from the root inwards, as one line. -/
def CursorPath.describe (path : CursorPath) : Text :=
  [' ', '>', ' '].intercalate path.segments.reverse

/-- A failure of an operation. -/
structure Error where
  cause : Cause
  path : Option CursorPath := none
  deriving DecidableEq

/-- What errors are told apart by. -/
inductive ErrorKind
  | recipeRun
  | duplicateId
  | notImplemented
  | visitor
  | parse
  | config
  | io
  | internal
  | overflow
  deriving DecidableEq

namespace Cause

/-- The kind of a cause. -/
def kind : Cause -> ErrorKind
  | duplicateId _ => .duplicateId
  | notImplemented _ => .notImplemented
  | visitor _ => .visitor
  | parse _ _ _ => .parse
  | config _ => .config
  | io _ _ => .io
  | internal _ => .internal
  | overflow => .overflow

/-- The name of an identifier in messages. -/
def describeId : Stamp -> Text
  | .pending => "pending".toList
  | .canonical => "canonical".toList
  | .settled number => Text.decimal number

/-- The message of a cause. -/
def message : Cause -> Text
  | duplicateId id =>
      "Duplicate key ".toList ++ describeId id ++ " in padded element list".toList
  | notImplemented what => "Not implemented: ".toList ++ what
  | visitor text => "Visitor error: ".toList ++ text
  | parse text line column =>
      "Parse error: ".toList ++ text ++ " at line ".toList ++ Text.decimal line ++
        ", column ".toList ++ Text.decimal column
  | config text => "Configuration error: ".toList ++ text
  | io path reason =>
      "IO error for path '".toList ++ path ++ "': ".toList ++ reason
  | internal text => "Internal error: ".toList ++ text
  | overflow => "attempt to add with overflow".toList

end Cause

namespace ErrorKind

/-- The name of a kind. -/
def name : ErrorKind -> Text
  | recipeRun => "RecipeRun".toList
  | duplicateId => "DuplicateId".toList
  | notImplemented => "NotImplemented".toList
  | visitor => "Visitor".toList
  | parse => "Parse".toList
  | config => "Config".toList
  | io => "Io".toList
  | internal => "Internal".toList
  | overflow => "Panic".toList

end ErrorKind

namespace Error

/-- An error outside any visit. -/
def ofCause (cause : Cause) : Error where
  cause := cause

/-- The kind of an error; one with a path arose in a run. An overflow is the same wherever it arose. -/
def kind (error : Error) : ErrorKind :=
  if error.cause = .overflow then .overflow
  else
    match error.path with
    | some _ => .recipeRun
    | none => error.cause.kind

/-- The message of an error. -/
def message (error : Error) : Text :=
  if error.cause = .overflow then error.cause.message
  else
    match error.path with
    | some path =>
        "Recipe run failed at ".toList ++ path.describe ++ ": ".toList ++ error.cause.message
    | none => error.cause.message

/-- The failure is confined to one source unit, so that others can still be worked on. -/
def isRecoverable (error : Error) : Bool :=
  match error.cause.kind with
  | .parse | .visitor | .notImplemented | .io => true
  | _ => false

/-- Record where the error arose, unless that is known already. -/
def locate
    (path : CursorPath)
    (error : Error) : Error :=
  match error.path with
  | some _ => error
  | none => { error with path := some path }

/-- The cause survives recording. -/
@[simp] theorem cause_locate
    (path : CursorPath)
    (error : Error) :
    (error.locate path).cause = error.cause := by
  unfold locate
  split <;> rfl

/-- The first recorded path stays. -/
@[simp] theorem locate_locate
    (first second : CursorPath)
    (error : Error) :
    (error.locate first).locate second = error.locate first := by
  cases known : error.path with
  | none => simp [locate, known]
  | some path => simp [locate, known]

end Error

/-- The result of a step over one of many source units. -/
inductive UnitOutcome (α : Type)
  /-- The unit has a result. -/
  | done (value : α)
  /-- The unit is left out; the error is reported. -/
  | skipped (error : Error)
  /-- The whole run ends. -/
  | stopped (error : Error)

namespace UnitOutcome

/-- A recoverable error skips the unit; any other one stops the run. -/
def ofExcept : Except Error α -> UnitOutcome α
  | .ok value => done value
  | .error error => if error.isRecoverable then skipped error else stopped error

end UnitOutcome
end Lossless
