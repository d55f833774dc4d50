import Lossless.Files.Access

/-!
# Files in memory

A state of all files as a value. Files are kept by the names on the way from the root; every directory on
such a way exists. Paths are resolved from the working directory, component by component.
-/

namespace Lossless
namespace Files

/-- The names on the way from the root. -/
abbrev Place := List Text

/-- A file in memory. -/
structure StoredFile where
  bytes : List UInt8
  permissions : Nat := 0o644
  deriving DecidableEq

/-- All files, the directories that need not hold one, and the working directory. -/
structure Snapshot where
  files : List (Place × StoredFile)
  directories : List Place
  current : Place

namespace Snapshot

/-- The longest name of a file in bytes. -/
def longestName : Nat := 255

/-- The file at a place. -/
def file?
    (snapshot : Snapshot)
    (place : Place) : Option StoredFile :=
  snapshot.files.lookup place

/-- There is a directory at a place. -/
def isDirectoryAt
    (snapshot : Snapshot)
    (place : Place) : Bool :=
  (snapshot.current :: snapshot.directories).any place.isPrefixOf ||
    snapshot.files.any fun (way, _) => place.isPrefixOf way.dropLast

/-- There is a file or a directory at a place. -/
def isOccupied
    (snapshot : Snapshot)
    (place : Place) : Bool :=
  (snapshot.file? place).isSome || snapshot.isDirectoryAt place

/-- Go from a place along one piece of a path. -/
def step
    (snapshot : Snapshot)
    (place : Place)
    (piece : Text) : Except Failure Place :=
  if (snapshot.file? place).isSome then .error .notDirectory
  else if piece = [] || piece = ['.'] then .ok place
  else if piece = ['.', '.'] then .ok place.dropLast
  else if longestName < Text.byteLength piece then .error .nameTooLong
  else if snapshot.isOccupied (place ++ [piece]) then .ok (place ++ [piece])
  else .error .notFound

/-- Where a path starts. -/
def start
    (snapshot : Snapshot)
    (path : Path) : Place :=
  if path.isAbsolute then [] else snapshot.current

/-- Go along the pieces of a path. -/
def follow
    (snapshot : Snapshot)
    (path : Path)
    (pieces : List Text) : Except Failure Place :=
  pieces.foldlM snapshot.step (snapshot.start path)

/-- The place of what stands under a path. -/
def resolve
    (snapshot : Snapshot)
    (path : Path) : Except Failure Place :=
  if path.text.isEmpty then .error .notFound
  else snapshot.follow path (Text.splitAt '/' path.text)

/-- The place that a path names, whether or not something stands there, in a directory that exists. -/
def target
    (snapshot : Snapshot)
    (path : Path) : Except Failure Place := do
  if path.text.isEmpty then throw .notFound
  let pieces := Text.splitAt '/' path.text
  let parent <- snapshot.follow path pieces.dropLast
  if (snapshot.file? parent).isSome then throw .notDirectory
  let last := pieces.getLastD []
  if [[], ['.'], ['.', '.']].contains last then throw .isDirectory
  if longestName < Text.byteLength last then throw .nameTooLong
  return parent ++ [last]

/-- What is known about a place. -/
def statusAt
    (snapshot : Snapshot)
    (place : Place) : Status :=
  match snapshot.file? place with
  | some file => ⟨.file, file.permissions, file.bytes.length⟩
  | none => ⟨.directory, 0o755, 0⟩

/-- The names directly below a place. -/
def namesBelow
    (snapshot : Snapshot)
    (place : Place) : List Text :=
  let ways := snapshot.files.map Prod.fst ++ snapshot.current :: snapshot.directories
  (ways.filterMap fun way =>
    if place.isPrefixOf way then (way.drop place.length).head? else none).eraseDups

/-- The entries of a directory. -/
def entriesAt
    (snapshot : Snapshot)
    (place : Place) : Except Failure (List Entry) :=
  if (snapshot.file? place).isSome then .error .notDirectory
  else
    .ok <| (snapshot.namesBelow place).map fun name =>
      ⟨name, (snapshot.statusAt (place ++ [name])).kind⟩

/-- The bytes of the file at a place. -/
def bytesAt
    (snapshot : Snapshot)
    (place : Place) : Except Failure (List UInt8) :=
  match snapshot.file? place with
  | some file => .ok file.bytes
  | none => .error .isDirectory

/-- Put bytes at a place; a file there keeps its permissions. -/
def put
    (snapshot : Snapshot)
    (place : Place)
    (bytes : List UInt8) : Snapshot :=
  match snapshot.file? place with
  | some _ =>
      { snapshot with
        files := snapshot.files.map fun (way, file) =>
          (way, if way = place then { file with bytes } else file) }
  | none => { snapshot with files := snapshot.files ++ [(place, { bytes })] }

/-- Write a file. -/
def write
    (snapshot : Snapshot)
    (path : Path)
    (bytes : List UInt8) : Except Failure Snapshot := do
  let place <- snapshot.target path
  if snapshot.isDirectoryAt place then throw .isDirectory
  return snapshot.put place bytes

/-- A place as a path. -/
def pathOf (place : Place) : Path :=
  ⟨'/' :: ['/'].intercalate place⟩

instance : Access (StateM Snapshot) where
  status := fun path => do
    let snapshot <- get
    return (snapshot.resolve path).map snapshot.statusAt
  entries := fun path => do
    let snapshot <- get
    return snapshot.resolve path >>= snapshot.entriesAt
  read := fun path => do
    let snapshot <- get
    return snapshot.resolve path >>= snapshot.bytesAt
  write := fun path bytes => do
    match (<- get).write path bytes with
    | .ok snapshot =>
        set snapshot
        return .ok ()
    | .error failure => return .error failure
  canonical := fun path => do
    return ((<- get).resolve path).map pathOf

end Snapshot
end Files
end Lossless
