import Lossless.Files.Access
import Lossless.Files.Pattern

/-!
# Finding source files

Arguments name files, directories or patterns. A named file is taken as it is; a directory stands for the
files below it that a filter takes; a pattern for the files that it matches. The files are sorted, and none
comes twice.
-/

namespace Lossless
namespace Files

/-- The longest path in bytes that can be followed; no way down has more components. -/
def longestPath : Nat := 4096

/-- Why no files are found. -/
inductive DiscoveryFailure
  | pathNotFound (path : Path)
  | invalidPattern (text : Text)
  /-- A directory below a path cannot be listed. -/
  | cannotWalk (path directory : Path) (failure : Failure)
  /-- A directory on the way of a pattern cannot be listed. -/
  | cannotRead (directory : Path) (failure : Failure)

/-- What failed, and the causes of that from the nearest on. -/
def DiscoveryFailure.messages : DiscoveryFailure -> List Text
  | pathNotFound path => ["Path not found: ".toList ++ path.text]
  | invalidPattern text => ["Invalid glob pattern '".toList ++ text ++ ['\'']]
  | cannotWalk path directory failure =>
      ["Failed to walk ".toList ++ path.text,
        "IO error for operation on ".toList ++ directory.text ++ [':', ' '] ++ failure.message,
        failure.message]
  | cannotRead directory failure =>
      ["attempting to read `".toList ++ directory.text ++ "` resulted in an error: ".toList ++
        failure.message]

/-! ## Filters -/

/-- Which files below a directory are taken, by their path from that directory. -/
structure Filter where
  /-- One of these has to match, if there are any. -/
  included : List Pattern
  /-- None of these may match. -/
  excluded : List Pattern

/-- Read patterns. -/
def readPatterns (texts : List Text) : Except DiscoveryFailure (List Pattern) :=
  texts.mapM fun text => (Pattern.ofText? text).elim (.error (.invalidPattern text)) .ok

/-- The filter with some patterns. -/
def Filter.ofTexts
    (included excluded : List Text) : Except DiscoveryFailure Filter := do
  return ⟨<- readPatterns included, <- readPatterns excluded⟩

/-- The filter takes a path. -/
def Filter.accepts
    (filter : Filter)
    (path : Text) : Bool :=
  (filter.included.isEmpty || filter.included.any (·.isMatch path)) &&
    !filter.excluded.any (·.isMatch path)

/-- The extension of a path is one of some. -/
def hasExtension
    (extensions : List Text)
    (path : Path) : Bool :=
  path.extension?.any extensions.contains

variable {m : Type -> Type} [Monad m] [Access m]

/-! ## Directories -/

/-- A file below a directory: its path, and its path from the directory. -/
abbrev Found := Path × Path

/-- The files below a directory, not more than so many levels deep. -/
def filesBelow
    (start : Path) :
    Nat -> Path -> Path -> ExceptT DiscoveryFailure m (List Found)
  | 0, _, _ => return []
  | depth + 1, directory, relative => do
      match <- (Access.entries directory : m _) with
      | .error failure => throw (.cannotWalk start directory failure)
      | .ok entries => do
          let found <- entries.mapM fun entry => do
            let path := directory.join entry.name
            let relative := relative.join entry.name
            match entry.kind with
            | .file => return [(path, relative)]
            | .directory => filesBelow start depth path relative
            | _ => return []
          return found.flatten

/-- The files below a directory that a filter takes. -/
def walk
    (filter : Filter)
    (directory : Path) : ExceptT DiscoveryFailure m (List Path) := do
  let found <- filesBelow directory longestPath directory ⟨[]⟩
  return (found.filter fun (_, relative) => filter.accepts relative.text).map Prod.fst

/-! ## Patterns -/

/-- A component of a pattern. -/
inductive PatternPart
  /-- A name without anything to match. -/
  | fixed (name : Text)
  | matching (pattern : Pattern)
  /-- Any number of directories. -/
  | anyDirectories

/-- The text of a pattern that only stands for itself. -/
def fixedText? : Pattern -> Option Text
  | [] => some []
  | .char char :: rest => (fixedText? rest).map (char :: ·)
  | _ :: _ => none

/-- Read a component of a pattern. -/
def PatternPart.ofText? (text : Text) : Option PatternPart := do
  let pattern <- Pattern.ofText? text
  match fixedText? pattern with
  | some name => return .fixed name
  | none => return if pattern = [.directories] then .anyDirectories else .matching pattern

/-- The working directory itself, whose entries have no directory in their path. -/
def isWorkingDirectory (path : Path) : Bool :=
  path.components = [.current]

/-- The path of an entry of a directory. -/
def entryPath
    (directory : Path)
    (name : Text) : Path :=
  if isWorkingDirectory directory then ⟨name⟩ else directory.join name

/-- A path on which the start of a pattern has matched. -/
structure Matched where
  path : Path
  isDirectory : Bool

/-- What is at a path. -/
def matchedAt (path : Path) : m Matched := do
  return ⟨path, <- isDirectory path⟩

/-- The entries of a directory. -/
def matchedIn (directory : Path) : ExceptT DiscoveryFailure m (List (Text × Matched)) := do
  match <- (Access.entries directory : m _) with
  | .error failure => throw (.cannotRead directory failure)
  | .ok entries =>
      entries.mapM fun entry => do
        let path := entryPath directory entry.name
        let isDirectory <-
          match entry.kind with
          | .link => (isDirectory path : m Bool)
          | kind => pure (kind = .directory : Bool)
        return (entry.name, ⟨path, isDirectory⟩)

/-- The entries that name a directory itself and the one above it, when a part with a dot matches them. -/
def dotEntries : PatternPart -> List Text
  | .matching (.char '.' :: rest) =>
      [['.'], ['.', '.']].filter (Pattern.isMatch (.char '.' :: rest))
  | _ => []

mutual

/-- The paths below a path that the parts of a pattern match, not more than so many steps down. -/
def expandBelow
    (bound : Nat)
    (parts : List PatternPart)
    (start : Matched) : ExceptT DiscoveryFailure m (List Matched) :=
  match bound, parts with
  | 0, _ => return []
  | _, [] => return [start]
  | bound + 1, .fixed name :: rest => do
      let path := entryPath start.path name
      let isSpecial := name = ['.'] || name = ['.', '.']
      let isThere <- if isSpecial then pure start.isDirectory else (doesExist path : m Bool)
      if isThere then expandBelow bound rest (<- (matchedAt path : m Matched))
      else return []
  | bound + 1, part :: rest => do
      if start.isDirectory then
        let entries <- matchedIn start.path
        let found <- entries.mapM fun (name, entry) => expandEntry bound (part :: rest) name entry
        let dots <- (dotEntries part).mapM fun name => do
          expandBelow bound rest (<- (matchedAt (start.path.join name) : m Matched))
        return found.flatten ++ dots.flatten
      else return []

/-- The paths at and below an entry that the parts of a pattern match. -/
def expandEntry
    (bound : Nat)
    (parts : List PatternPart)
    (name : Text)
    (entry : Matched) : ExceptT DiscoveryFailure m (List Matched) :=
  match bound, parts with
  | 0, _ => return []
  | _, [] => return []
  | bound + 1, .anyDirectories :: rest => do
      let below <- if entry.isDirectory then expandBelow bound (.anyDirectories :: rest) entry else pure []
      let here <-
        if rest.isEmpty then pure (if entry.isDirectory then [entry] else [])
        else expandEntry bound rest name entry
      return below ++ here
  | bound + 1, .fixed wanted :: rest =>
      if name = wanted then expandBelow bound rest entry else return []
  | bound + 1, .matching pattern :: rest =>
      if pattern.isMatch name then expandBelow bound rest entry else return []

end

/-- The components of a pattern, and whether it starts at the root. -/
def patternPieces (text : Text) : List Text × Bool :=
  let isAbsolute := text.head? = some '/'
  let pieces := Text.splitAt '/' (if isAbsolute then text.drop 1 else text)
  (if pieces.getLast? = some [] then pieces.dropLast else pieces, isAbsolute)

/-- The paths that a pattern matches. -/
def expand (text : Text) : ExceptT DiscoveryFailure m (List Path) := do
  let (pieces, isAbsolute) := patternPieces text
  match Pattern.ofText? text, pieces.mapM PatternPart.ofText? with
  | some _, some parts => do
      let start : Path := ⟨if isAbsolute then ['/'] else ['.']⟩
      let found <- expandBelow (2 * (longestPath + parts.length)) parts (<- (matchedAt start : m Matched))
      let isDirectoryWanted := text.getLast? = some '/'
      let found := found.filter fun entry => entry.isDirectory || !isDirectoryWanted
      return found.map Matched.path
  | _, _ => throw (.invalidPattern text)

/-! ## Arguments -/

/-- The files that an argument stands for. -/
def filesOf
    (filter : Filter)
    (path : Path) : ExceptT DiscoveryFailure m (List Path) := do
  match <- (kind? path : m (Option Kind)) with
  | some .file => return [path]
  | some .directory => walk filter path
  | _ =>
      if '*' ∈ path.text then
        let paths <- expand path.text
        paths.filterM fun path => (isFile path : m Bool)
      else
        throw (.pathNotFound path)

/-- The paths without those that are the same as the one before. -/
def dropRepeated : List Path -> List Path
  | first :: second :: rest =>
      if first.agrees second then dropRepeated (first :: rest) else first :: dropRepeated (second :: rest)
  | paths => paths
  termination_by paths => paths.length

/-- The files with one of some extensions that arguments stand for, sorted. -/
def discover
    (filter : Filter)
    (extensions : List Text)
    (paths : List Path) : m (Except DiscoveryFailure (List Path)) :=
  ExceptT.run do
    let found <- paths.mapM fun path => (filesOf filter path : ExceptT DiscoveryFailure m _)
    let wanted := found.flatten.filter (hasExtension extensions)
    return dropRepeated (wanted.mergeSort fun left right => !right.before left)

end Files
end Lossless
