import Lossless.Space
import Lossless.Word

/-!
# Indentation

Column arithmetic on whitespace. A tab counts as the style's tab size, and counting starts again after
every line break. `indentTo` moves whatever follows a space, and the comments in it that start a line, to a
column. Widths are counted in machine words.
-/

namespace Lossless
namespace Format

/-- The width after one more character. -/
def widthAfter
    (tabSize width : Nat)
    (char : Char) : Except Error Nat :=
  if char = '\n' || char = '\r' then .ok 0
  else if char = '\t' then addWords width tabSize
  else addWords width 1

/-- The width of what stands after the last line break. -/
def indentWidth
    (tabSize : Nat)
    (whitespace : Text) : Except Error Nat :=
  whitespace.foldlM (widthAfter tabSize) 0

/-- The characters that span so many columns. -/
def indentString
    (style : IndentStyle)
    (column : Nat) : Text :=
  if style.useTabCharacter && 0 < style.tabSize then
    List.replicate (column / style.tabSize) '\t' ++ List.replicate (column % style.tabSize) ' '
  else
    List.replicate column ' '

/-- Lines of indentation alone, each after a line break; the last one has none. -/
def emptyLines (indent : Text) : List Text -> Text
  | [] => []
  | [_] => ['\n']
  | _ :: rest => '\n' :: (indent ++ emptyLines indent rest)

/-- Whitespace up to a line break with every empty line indented. -/
def indentEmptyLines (indent head : Text) : Text :=
  match Text.splitAt '\n' head with
  | [] => []
  | first :: rest => first ++ emptyLines indent rest

/-- Replace what stands after the last line break by so many columns. -/
def shiftWhitespace
    (style : IndentStyle)
    (column : Nat)
    (whitespace : Text) : Text :=
  match Text.splitLast? '\n' whitespace with
  | none => whitespace
  | some (head, _) =>
      let indent := indentString style column
      (if style.keepIndentsOnEmptyLines then indentEmptyLines indent head else head) ++ indent

/-- Drop up to so many blanks and tabs at the start of a line. -/
def dropIndent : Nat -> Text -> Text
  | count + 1, first :: rest =>
      if first = ' ' || first = '\t' then dropIndent count rest else first :: rest
  | _, line => line

/-- Move a continuation line of a block comment from a column to another one. -/
def shiftCommentLine
    (source target : Nat)
    (line : Text) : Text :=
  if source < target then
    if line.all Text.isBlank then line else List.replicate (target - source) ' ' ++ line
  else
    dropIndent (source - target) line

/-- Move the continuation lines of a block comment from a column to another one. -/
def shiftCommentBody
    (source target : Nat)
    (text : Text) : Text :=
  if source = target then text
  else
    match Text.splitAt '\n' text with
    | [] => []
    | first :: rest =>
        first ++ rest.flatMap fun line => '\n' :: shiftCommentLine source target line

/--
Move comments to a column. The first argument is the whitespace before the first comment; it comes back
shifted, beside the comments with their suffixes shifted. A line comment at the start of a line stays. The
whitespace before a comment is measured when the comment starts a line.
-/
def indentComments
    (style : IndentStyle)
    (column : Nat) : Text -> List Comment -> Except Error (Text × List Comment)
  | leading, [] => return (shiftWhitespace style column leading, [])
  | leading, comment :: rest => do
      let startsLine := leading.contains '\n'
      let width <- if startsLine then indentWidth style.tabSize leading else pure 0
      let stays := !startsLine || (width = 0 && !comment.isBlock)
      let text :=
        if comment.isBlock && startsLine then shiftCommentBody width column comment.text
        else comment.text
      let (suffix, rest) <- indentComments style column comment.suffix rest
      return (if stays then leading else shiftWhitespace style column leading,
        { comment with text, suffix } :: rest)

/-- Move what follows a space to a column; a space without a line break stays. -/
def indentTo
    (style : IndentStyle)
    (column : Nat)
    (space : Space) : Except Error Space :=
  if !space.containsNewline then return space
  else if space.comments = [] then
    return space.withWhitespace (shiftWhitespace style column space.whitespace)
  else do
    let (whitespace, comments) <- indentComments style column space.whitespace space.comments
    return .build whitespace comments

/-- Whether a character indents. -/
def isIndent (char : Char) : Bool :=
  char = ' ' || char = '\t'

/-- A line with its indentation in the characters of the style. -/
def retabLine
    (style : IndentStyle)
    (line : Text) : Except Error Text := do
  let width <- indentWidth style.tabSize (line.takeWhile isIndent)
  return indentString style width ++ line.dropWhile isIndent

/-- Write the indentation of every line but the first in the characters of the style. -/
def retab
    (style : IndentStyle)
    (whitespace : Text) : Except Error Text := do
  match Text.splitAt '\n' whitespace with
  | [] => return []
  | first :: rest => return first ++ (<- rest.mapM (retabLine style)).flatMap fun line => '\n' :: line

end Format
end Lossless
