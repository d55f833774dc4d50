import Lossless.Diff.Sliding
import Lossless.Path

/-!
# Differences of texts, line by line

Two texts are compared as lists of lines, and what differs is shown with a few lines around it. Tabs and
carriage returns are made visible.
-/

namespace Lossless

namespace Text

/-- Put a character in front of a text that is given as lines. -/
def consLine
    (char : Char)
    (lines : List Text) : List Text :=
  match lines with
  | [] => [[char]]
  | line :: rest => (char :: line) :: rest

/-- The lines of a text with their line ends: a line feed, a carriage return, or both in this order. -/
def lines : Text -> List Text
  | [] => []
  | '\r' :: '\n' :: rest => ['\r', '\n'] :: lines rest
  | char :: rest => if char = '\n' || char = '\r' then [char] :: lines rest else consLine char (lines rest)

@[simp] theorem flatten_consLine
    (char : Char)
    (lines : List Text) :
    (consLine char lines).flatten = char :: lines.flatten := by
  cases lines <;> simp [consLine]

end Text

namespace Diff

/-- The number of lines to show before and after what differs. -/
def context : Nat := 3

/-- The kept lines that are near to what differs; the first run may be at the start of the texts. -/
def nearby (isFirst : Bool) : List (Change α) -> List (Change α)
  | [] => []
  | .kept items :: rest =>
      let ending := items.drop (items.length - context)
      let near :=
        if rest.isEmpty then if isFirst then [] else items.take context
        else if isFirst then ending
        else if 2 * context < items.length then items.take context ++ ending
        else items
      .kept near :: nearby false rest
  | change :: rest => change :: nearby false rest

/-- A line without its end and with tabs made visible; a carriage return before the line feed stays visible. -/
def visible (line : Text) : Text :=
  let body := line.reverse.dropWhile fun char => char = '\n' || char = '\r'
  let ending : Text := if (Text.dropStart? ['\n', '\r'] line.reverse).isSome then ['␍'] else []
  Text.replaceChar '\t' ['→'] body.reverse ++ ending

/-- Lines behind a mark. -/
def marked
    (mark : Char)
    (lines : List Text) : Text :=
  lines.flatMap fun line => mark :: visible line ++ ['\n']

/-- Changed lines behind their marks. -/
def Change.render : Change Text -> Text
  | kept lines => marked ' ' lines
  | deleted lines => marked '-' lines
  | inserted lines => marked '+' lines

/-- What differs between two texts that belong to a file. -/
def render
    (path : Path)
    (old new : Text) : Text :=
  let header := "--- ".toList ++ path.text ++ "\n+++ ".toList ++ path.text ++ ['\n']
  header ++ (nearby true (compact (changes old.lines new.lines))).flatMap Change.render

end Diff
end Lossless
