import Lossless.Marker
import Lossless.Text.Characters

/-!
# Spaces

A space is the whitespace before a piece of syntax together with the comments in that gap. The whitespace
after each comment is the comment's suffix, so a space is written as its whitespace and then every comment
with its suffix. Editing operations give back the same cell when nothing changes.

`format` splits a run of whitespace and comments; `render` writes a space. Text that is neither blank nor
comment is kept in the whitespace around it.
-/

namespace Lossless

/-- How comments are written: `// line` and `/* block */`, or `# line` alone. -/
inductive CommentDelimiters
  | slash
  | hash
  deriving DecidableEq

/-- A comment without its delimiters, and the whitespace after it. -/
structure Comment where
  /-- Written between `/*` and `*/`, and not up to the end of the line. -/
  isBlock : Bool
  text : Text
  suffix : Text
  markers : Markers Empty
  deriving DecidableEq

namespace Comment

/-- A comment without markers. -/
def build
    (isBlock : Bool)
    (text suffix : Text) : Comment where
  isBlock := isBlock
  text := text
  suffix := suffix
  markers := .empty

/-- The comment with its delimiters, without its suffix. -/
def render
    (delimiters : CommentDelimiters)
    (comment : Comment) : Text :=
  match comment.isBlock, delimiters with
  | true, _ => ['/', '*'] ++ comment.text ++ ['*', '/']
  | false, .slash => ['/', '/'] ++ comment.text
  | false, .hash => '#' :: comment.text

/-- Equal as values; marker sets count by their identifier. -/
def agrees (left right : Comment) : Bool :=
  left.isBlock = right.isBlock && left.text = right.text && left.suffix = right.suffix &&
    left.markers.agrees right.markers

/-- Lists of comments that are equal as values. -/
def listAgrees : List Comment -> List Comment -> Bool
  | [], [] => true
  | left :: lefts, right :: rights => left.agrees right && listAgrees lefts rights
  | _, _ => false

/-- Number the markers of the comment. -/
def settle (comment : Comment) : Numbering Comment := do
  return { comment with markers := <- comment.markers.settle pure }

end Comment

/-- Whitespace and comments beside a piece of syntax. -/
structure Space where
  stamp : Stamp
  whitespace : Text
  comments : List Comment
  deriving DecidableEq

namespace Space

/-- The one empty space. -/
def empty : Space := ⟨.canonical, [], []⟩

/-- The one single blank. -/
def single : Space := ⟨.canonical, [' '], []⟩

/-- A new space; without comments, the empty space and the single blank are the shared ones. -/
def build
    (whitespace : Text)
    (comments : List Comment) : Space :=
  if comments = [] && (whitespace = [] || whitespace = [' ']) then
    ⟨.canonical, whitespace, []⟩
  else
    ⟨.pending, whitespace, comments⟩

@[simp] theorem whitespace_build
    (whitespace : Text)
    (comments : List Comment) :
    (build whitespace comments).whitespace = whitespace := by
  unfold build
  split <;> rfl

@[simp] theorem comments_build
    (whitespace : Text)
    (comments : List Comment) :
    (build whitespace comments).comments = comments := by
  unfold build
  split
  · next shared => simp_all
  · rfl

@[simp] theorem build_nil_nil : build [] [] = empty := rfl

@[simp] theorem build_blank_nil : build [' '] [] = single := rfl

/-! ## Splitting a run of whitespace and comments -/

mutual

/-- Split outside comments: the whitespace up to the first comment, and the comments. -/
def splitGap (delimiters : CommentDelimiters) : Text -> Text × List Comment
  | [] => ([], [])
  | first :: rest =>
      match delimiters, first, rest with
      | .slash, '/', '/' :: body =>
          let (text, suffix, comments) := splitLine delimiters body
          ([], .build false text suffix :: comments)
      | .slash, '/', '*' :: body =>
          let (text, suffix, comments) := splitBlock delimiters body
          ([], .build true text suffix :: comments)
      | .hash, '#', body =>
          let (text, suffix, comments) := splitLine delimiters body
          ([], .build false text suffix :: comments)
      | _, first, rest =>
          let (whitespace, comments) := splitGap delimiters rest
          (first :: whitespace, comments)

/-- Split inside a line comment: its text, its suffix, and the comments after it. -/
def splitLine (delimiters : CommentDelimiters) : Text -> Text × Text × List Comment
  | [] => ([], [], [])
  | first :: rest =>
      if first = '\n' || first = '\r' then
        let (suffix, comments) := splitGap delimiters rest
        ([], first :: suffix, comments)
      else
        let (text, suffix, comments) := splitLine delimiters rest
        (first :: text, suffix, comments)

/-- Split inside a block comment; one that is never closed takes the rest. -/
def splitBlock (delimiters : CommentDelimiters) : Text -> Text × Text × List Comment
  | [] => ([], [], [])
  | first :: rest =>
      match first, rest with
      | '*', '/' :: outside =>
          let (suffix, comments) := splitGap delimiters outside
          ([], suffix, comments)
      | first, rest =>
          let (text, suffix, comments) := splitBlock delimiters rest
          (first :: text, suffix, comments)

end

/-- Read a run of whitespace and comments. -/
def formatWith
    (delimiters : CommentDelimiters)
    (text : Text) : Space :=
  let (whitespace, comments) := splitGap delimiters text
  build whitespace comments

/-- Read a run of whitespace, line comments and block comments. -/
def format (text : Text) : Space :=
  formatWith .slash text

@[simp] theorem format_nil : format [] = empty := rfl

/-- Write the space. -/
def render
    (delimiters : CommentDelimiters)
    (space : Space) : Text :=
  space.whitespace ++
    space.comments.flatMap fun comment => comment.render delimiters ++ comment.suffix

@[simp] theorem render_empty (delimiters : CommentDelimiters) : empty.render delimiters = [] := rfl

/-! ## Looking at a space -/

/-- Neither whitespace nor a comment. -/
def isEmpty (space : Space) : Bool :=
  space.whitespace.isEmpty && space.comments.isEmpty

/-- The whitespace after the last comment, or the only whitespace. -/
def lastWhitespace (space : Space) : Text :=
  match space.comments.getLast? with
  | some last => last.suffix
  | none => space.whitespace

/-- What stands after the last line break. -/
def indent (space : Space) : Text :=
  Text.afterLast '\n' space.lastWhitespace

/-- Some whitespace of the space, outside the comments, breaks the line. -/
def containsNewline (space : Space) : Bool :=
  space.whitespace.contains '\n' ||
    space.comments.any fun comment => comment.suffix.contains '\n'

/-- Equal as values; marker sets of comments count by their identifier. -/
def agrees (left right : Space) : Bool :=
  left.whitespace = right.whitespace && Comment.listAgrees left.comments right.comments

/-- The space in one line, every character visible. -/
def describe (space : Space) : Text :=
  "Space(\"".toList ++ Text.withVisibleBreaks space.whitespace ++ ['"'] ++
    (space.comments.flatMap fun comment =>
      [',', ' '] ++ Text.quoted (comment.render .slash) ++ [' ', '+', ' ', '"'] ++
        Text.withVisibleBreaks comment.suffix ++ ['"']) ++
    [')']

/-! ## Editing a space -/

/-- The space with another leading whitespace. -/
def withWhitespace
    (space : Space)
    (whitespace : Text) : Space :=
  if whitespace = space.whitespace then space else build whitespace space.comments

/-- The space with other comments; the same cell when they are equal as values. -/
def withComments
    (space : Space)
    (comments : List Comment) : Space :=
  if Comment.listAgrees comments space.comments then space
  else build space.whitespace comments

/-- The comments with another suffix of the last one. -/
def withLastSuffix (suffix : Text) : List Comment -> List Comment
  | [] => []
  | [last] => [{ last with suffix := suffix }]
  | comment :: comments => comment :: withLastSuffix suffix comments

/-- The space with another whitespace at its end. -/
def withLastWhitespace
    (space : Space)
    (whitespace : Text) : Space :=
  match space.comments with
  | [] => space.withWhitespace whitespace
  | comments =>
      if space.lastWhitespace = whitespace then space
      else space.withComments (withLastSuffix whitespace comments)

/-- Put whitespace at the end. -/
def appendWhitespace
    (space : Space)
    (whitespace : Text) : Space :=
  if whitespace = [] then space
  else space.withLastWhitespace (space.lastWhitespace ++ whitespace)

/-- Put a comment with an empty suffix at the end. -/
def appendComment
    (space : Space)
    (text : Text)
    (isBlock : Bool) : Space :=
  space.withComments (space.comments ++ [.build isBlock text []])

/-- Put `indent` after every line break. -/
def reindent
    (space : Space)
    (indent : Text) : Space :=
  if indent = [] || !space.containsNewline then space
  else
    let shift := Text.replaceChar '\n' ('\n' :: indent)
    build (shift space.whitespace)
      (space.comments.map fun comment => { comment with suffix := shift comment.suffix })

/-- Take `indent` away after every line break that has it. -/
def deindent
    (space : Space)
    (indent : Text) : Space :=
  if indent = [] || !space.containsNewline then space
  else
    let strip := Text.replace ('\n' :: indent) ['\n']
    (space.withWhitespace (strip space.whitespace)).withComments
      (space.comments.map fun comment => { comment with suffix := strip comment.suffix })

/-- Take away what stands after the last line break; without one, the whole last whitespace. -/
def stripIndent (space : Space) : Space :=
  match Text.splitLast? '\n' space.lastWhitespace with
  | some (head, _) => space.withLastWhitespace head
  | none => space.withLastWhitespace []

/-- Change the leading whitespace and every suffix. -/
def mapWhitespace
    (change : Text -> Text)
    (space : Space) : Space :=
  (space.withWhitespace (change space.whitespace)).withComments
    (space.comments.map fun comment => { comment with suffix := change comment.suffix })

/-- Number the space and the markers of its comments. -/
def settle (space : Space) : Numbering Space := do
  return ⟨<- space.stamp.settle, space.whitespace, <- space.comments.mapM Comment.settle⟩

end Space
end Lossless
