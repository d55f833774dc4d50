import Lossless.Command.Check
import Lossless.Command.Configuration
import Lossless.Command.Format

/-!
# Running a command line
-/

namespace Lossless
namespace Command

open Files

/-- What a run says, and how it ends. -/
structure Report where
  output : Text
  /-- Zero when all is well, one when something needs attention, two when the words are against the rules, and
  a hundred and one when a sum did not fit. -/
  code : Nat
  /-- The last message about a failure. -/
  failure : Option Text := none
  isTimed : Bool := false
  deriving DecidableEq

/-- How the program is used. -/
def usage : Text :=
  ("Usage: reweave [OPTIONS] [COMMAND]\n\n" ++
    "Commands:\n" ++
    "  check [PATHS]    Verify that every file prints back byte for byte\n" ++
    "  fmt [PATHS]      Format source files\n" ++
    "  config init      Write a configuration file with the default styles\n" ++
    "  config show      Show the configuration in effect\n" ++
    "  config validate  Validate a configuration file\n" ++
    "  config schema    Print the schema of configuration files\n" ++
    "  help             Show this text\n\n" ++
    "Options of every command:\n" ++
    "  -c, --config <PATH>  Configuration file\n" ++
    "  -v, --verbose        More log output\n" ++
    "      --json           Log as JSON lines\n" ++
    "      --no-color       No colors\n" ++
    "  -j, --threads <N>    Number of threads\n" ++
    "  -h, --help           Show this text\n" ++
    "  -V, --version        Show the version\n\n" ++
    "Options of check and fmt:\n" ++
    "      --include <PATTERN>  Only files that match\n" ++
    "      --exclude <PATTERN>  Only files that do not match\n\n" ++
    "Options of fmt:\n" ++
    "      --check            Report files that are not formatted\n" ++
    "      --diff             Show what would change\n" ++
    "      --indent-size <N>  Columns per level of indentation\n" ++
    "      --use-tabs         Indent with tabs\n").toList

/-- The version of the program. -/
def version : Text := "reweave 0.1.0".toList

variable {m : Type -> Type} [Monad m] [Access m]

/-- Do a task. -/
def Invocation.perform (invocation : Invocation) : Session m Ending :=
  match invocation.task with
  | .check selection => check invocation.configuration selection
  | .format options mode => format invocation.configuration options mode
  | .createConfiguration format isForced => createConfiguration format isForced
  | .showConfiguration isResolved => showConfiguration invocation.configuration isResolved
  | .validateConfiguration path => validateConfiguration (path <|> invocation.configuration)
  | .showSchema => showSchema
  | .help => do
      Session.say usage
      return {}
  | .version => do
      Session.sayLine version
      return {}

/-- Run a command line, given by the words after the name of the program. -/
def run (words : List Text) : m Report := do
  match Invocation.ofWords? words with
  | none => return { output := [], code := 2, failure := some ("invalid arguments\n\n".toList ++ usage) }
  | some invocation =>
      let (result, output) <- invocation.perform.run.run []
      match result with
      | .ok ending => return { output, code := if ending.isSuccess then 0 else 1, isTimed := ending.isTimed }
      | .error (.failed messages) =>
          return { output, code := 1, failure := some ([':', ' '].intercalate messages) }
      | .error .overflowed => return { output, code := 101 }

end Command
end Lossless
