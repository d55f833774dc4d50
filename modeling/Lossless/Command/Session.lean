import Lossless.Error
import Lossless.Files.Access

/-!
# Sessions

A command runs over any monad with files. It says something as it goes on, and may stop with a failure: what
was said up to then stays.
-/

namespace Lossless

/-- The message of an error and those of its causes, the nearest first. -/
def Error.messages (error : Error) : List Text :=
  let outer : List Text := if error.path.isSome then [error.message] else []
  let reason : List Text :=
    match error.cause with
    | .io _ reason => [reason]
    | _ => []
  outer ++ error.cause.message :: reason

namespace Command

/-- Why a command stops. -/
inductive Stop
  /-- Something failed; the messages are those about it, the outermost first. -/
  | failed (messages : List Text)
  /-- A sum does not fit in a machine word. -/
  | overflowed
  deriving DecidableEq

/-- A command under way: it has said a text, and may have stopped. -/
abbrev Session (m : Type -> Type) := ExceptT Stop (StateT Text m)

namespace Session

variable {m : Type -> Type} [Monad m]

/-- Say a text. -/
def say (text : Text) : Session m Unit :=
  modify (· ++ text)

/-- Say a line. -/
def sayLine (line : Text) : Session m Unit :=
  say (line ++ ['\n'])

/-- Go on with a result, or stop with the messages of its error. -/
def orStop (messages : ε -> List Text) : Except ε α -> Session m α
  | .ok value => return value
  | .error error => throw (.failed (messages error))

/-- Stop with a further message in front if a command stops. -/
def within
    (message : Text)
    (command : Session m α) : Session m α :=
  tryCatch command fun
    | .failed messages => throw (.failed (message :: messages))
    | .overflowed => throw .overflowed

end Session

/-- How a command ends that does not stop. -/
structure Ending where
  /-- Nothing was found that needs attention. -/
  isSuccess : Bool := true
  /-- The time that it took is of interest. -/
  isTimed : Bool := false
  deriving DecidableEq

end Command
end Lossless
