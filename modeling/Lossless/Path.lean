import Lossless.Text.Basic

/-!
# Paths and source files

Where a file is, and what the root of a tree knows about the file that it came from.
-/

namespace Lossless

/-!
## Paths

A path is read as a list of components. Repeated separators and inner `.` components do not count, so two
paths are the same when their components are. Paths are ordered by their components, a directory before
what is in it.
-/

/-- A part of a path. -/
inductive PathComponent
  | root
  /-- A leading `.`. -/
  | current
  | parent
  | name (text : Text)
  deriving DecidableEq

namespace PathComponent

/-- Components that are no names come first. -/
def rank : PathComponent -> Nat
  | root => 0
  | current => 1
  | parent => 2
  | name _ => 3

/-- The order of components; names are in the order of their characters. -/
def before : PathComponent -> PathComponent -> Bool
  | name left, name right => left < right
  | left, right => left.rank < right.rank

/-- A component as it is written. -/
def text : PathComponent -> Text
  | root => []
  | current => ['.']
  | parent => ['.', '.']
  | name text => text

/-- The order of lists of components, from the first difference on. -/
def listBefore : List PathComponent -> List PathComponent -> Bool
  | _, [] => false
  | [], _ :: _ => true
  | left :: lefts, right :: rights =>
      left.before right || (left = right && listBefore lefts rights)

end PathComponent

/-- A path as it is written. -/
structure Path where
  text : Text
  deriving DecidableEq

namespace Path

/-- The component that a piece between separators stands for. -/
def componentOf? (piece : Text) : Option PathComponent :=
  if piece = [] || piece = ['.'] then none
  else if piece = ['.', '.'] then some .parent
  else some (.name piece)

/-- The path starts at the root. -/
def isAbsolute (path : Path) : Bool :=
  path.text.head? = some '/'

/-- The components of a path. -/
def components (path : Path) : List PathComponent :=
  let pieces := Text.splitAt '/' path.text
  let leading : List PathComponent :=
    if path.isAbsolute then [.root]
    else if pieces.head? = some ['.'] then [.current]
    else []
  leading ++ pieces.filterMap componentOf?

/-- Both paths have the same components. -/
def agrees (left right : Path) : Bool :=
  left.components = right.components

/-- One path comes before another in a sorted list. -/
def before (left right : Path) : Bool :=
  PathComponent.listBefore left.components right.components

/-- A path below another one; an absolute path stands for itself. -/
def join
    (path : Path)
    (below : Text) : Path :=
  if below.head? = some '/' || path.text.isEmpty then ⟨below⟩
  else if path.text.getLast? = some '/' then ⟨path.text ++ below⟩
  else ⟨path.text ++ '/' :: below⟩

/-- The path of some components. -/
def ofComponents (components : List PathComponent) : Path :=
  if components = [.root] then ⟨['/']⟩ else ⟨['/'].intercalate (components.map PathComponent.text)⟩

/-- The path without its last component. -/
def parent (path : Path) : Path :=
  ofComponents path.components.dropLast

/-- The last component, if it is a name. -/
def fileName? (path : Path) : Option Text :=
  match path.components.getLast? with
  | some (.name text) => some text
  | _ => none

/-- What follows the last dot of the file name; a dot at its start does not count. -/
def extension? (path : Path) : Option Text :=
  path.fileName?.bind fun name =>
    match Text.splitLast? '.' name with
    | some (head, tail) => if head.length ≤ 1 then none else some tail
    | none => none

end Path

/-!
## Source files

What the root of a tree knows about the file that it came from.
-/

/-- What is known about a file besides its text. -/
structure FileAttributes where
  isReadable : Bool
  isWritable : Bool
  isExecutable : Bool
  /-- Length in bytes. -/
  size : Nat
  /-- The time of the last change is known. -/
  isModifiedKnown : Bool
  deriving DecidableEq

/-- The file of a source unit. -/
structure SourceInfo where
  path : Path
  attributes : Option FileAttributes := none
  charset : Option Text := none
  deriving DecidableEq

end Lossless
