import Lossless.Language
import Lossless.Path
import Lossless.Text.Utf8

/-!
# Access to files

What a program does with files, and the source files it reads.
-/

namespace Lossless
namespace Files

/-!
## Access to files

What a program does with files, over any monad. A file holds bytes; whether they are a text is decided
here. Every operation follows links.
-/

/-- Why a file cannot be worked on. -/
inductive Failure
  | notFound
  /-- A component on the way is a file. -/
  | notDirectory
  | isDirectory
  | nameTooLong
  /-- The bytes are no text. -/
  | notText
  | other (reason : Text)
  deriving DecidableEq

/-- The reason in words. -/
def Failure.message : Failure -> Text
  | notFound => "No such file or directory (os error 2)".toList
  | notDirectory => "Not a directory (os error 20)".toList
  | isDirectory => "Is a directory (os error 21)".toList
  | nameTooLong => "File name too long (os error 36)".toList
  | notText => "stream did not contain valid UTF-8".toList
  | other reason => reason

/-- What stands under a path. -/
inductive Kind
  | file
  | directory
  /-- A link, as it is listed in its directory. -/
  | link
  | other
  deriving DecidableEq

/-- What is known about what stands under a path. -/
structure Status where
  kind : Kind
  /-- The permission bits: reading, writing and executing, for the owner, the group and all others. -/
  permissions : Nat
  /-- Length in bytes. -/
  size : Nat

/-- A name in a directory, and what stands there. -/
structure Entry where
  name : Text
  kind : Kind

/-- A monad in which files can be worked on. -/
class Access (m : Type -> Type) where
  status : Path -> m (Except Failure Status)
  /-- What a directory holds. -/
  entries : Path -> m (Except Failure (List Entry))
  read : Path -> m (Except Failure (List UInt8))
  /-- Put a file in the place of what is there. -/
  write : Path -> List UInt8 -> m (Except Failure Unit)
  /-- The path from the root to what stands under a path, without links. -/
  canonical : Path -> m (Except Failure Path)

variable {m : Type -> Type} [Monad m] [Access m]

/-- The kind of what stands under a path. -/
def kind? (path : Path) : m (Option Kind) := do
  match <- Access.status path with
  | .ok status => return some status.kind
  | .error _ => return none

/-- Something stands under a path. -/
def doesExist (path : Path) : m Bool := do
  return (<- kind? path).isSome

/-- A file stands under a path. -/
def isFile (path : Path) : m Bool := do
  return (<- kind? path) = some .file

/-- A directory stands under a path. -/
def isDirectory (path : Path) : m Bool := do
  return (<- kind? path) = some .directory

/-- Read a text. -/
def readText (path : Path) : m (Except Failure Text) := do
  match <- Access.read path with
  | .error failure => return .error failure
  | .ok bytes => return (Text.decode? bytes).elim (.error .notText) .ok

/-- Write a text. -/
def writeText
    (path : Path)
    (text : Text) : m (Except Failure Unit) :=
  Access.write path (Text.encode text)

/-!
## Source files

A source file is read as a text and parsed; what is known about the file goes with the tree.
-/

/-- What the status of a file says about it; a file that was read can be read. -/
def Status.attributes (status : Status) : FileAttributes where
  isReadable := true
  isWritable := status.permissions &&& 0o222 ≠ 0
  isExecutable := status.permissions &&& 0o111 ≠ 0
  size := status.size
  isModifiedKnown := true

/-- Read the text of a source file. -/
def readSource (path : Path) : m (Except Error Text) := do
  match <- readText path with
  | .ok source => return .ok source
  | .error failure => return .error (.ofCause (.io path.text failure.message))

/-- Read and parse a source file. -/
def parseFile
    (τ : Type)
    [Language τ ω]
    (path : Path) : m (Except Error τ) := do
  match <- readSource path with
  | .error error => return .error error
  | .ok source =>
      let attributes := (<- Access.status path).toOption.map Status.attributes
      return (Language.parse source path).map (Language.withAttributes attributes)

end Files
end Lossless
