import Lossless.Config.Value
import Lossless.Text.Numeral

/-!
# Characters and tokens

A YAML text is read as a list of characters that know where they stand, because columns decide what belongs
together. Each line break is one character there, and a last character stands for the end of the text.

Block collections have no delimiters of their own: tokens that take up no characters stand where their indentation
begins and ends, and before a key.
-/

namespace Lossless
namespace Config
namespace Yaml

/-! ## Characters with their places -/

/-- A character and its place. -/
structure Glyph where
  char : Char
  /-- The number of characters before it. -/
  index : Nat
  /-- The number of line breaks before it. -/
  line : Nat
  /-- The number of characters before it on its line. -/
  column : Nat

/-! ### Classes of characters -/

/-- Stands for the end of a text. -/
def endMark : Char := '\x00'

/-- May stand in a text. -/
def isAllowed (char : Char) : Bool :=
  let code := char.toNat
  char = '\t' || char = '\n' || char = '\r' || (0x20 ≤ code && code ≤ 0x7E) || code = 0x85 ||
    (0xA0 ≤ code && code ≤ 0xFFFD) || 0x10000 ≤ code

/-- Ends a line in a text. -/
def endsLine (char : Char) : Bool :=
  char = '\n' || char = '\r' || char = '\u0085' || char = '\u2028' || char = '\u2029'

/-- What a character that ends a line stands for: the separators of Unicode for themselves, and the others for
a line feed. -/
def breakOf (char : Char) : Char :=
  if char = '\u2028' || char = '\u2029' then char else '\n'

/-- A line break among glyphs. -/
def isBreak (char : Char) : Bool :=
  char = '\n' || char = '\u2028' || char = '\u2029'

/-- A blank inside a line. -/
def isBlank (char : Char) : Bool := char = ' ' || char = '\t'

/-- A line break or the end. -/
def isLineEnd (char : Char) : Bool := isBreak char || char = endMark

/-- A blank, a line break or the end. -/
def isGap (char : Char) : Bool := isBlank char || isLineEnd char

/-- May stand in the name of an anchor, a directive or a handle. -/
def isNamePart (char : Char) : Bool :=
  char.isAlphanum || char = '_' || char = '-'

/-- Delimits the parts of a flow collection. -/
def isFlowMark (char : Char) : Bool :=
  char = ',' || char = '[' || char = ']' || char = '\x7b' || char = '\x7d'

/-! ### Glyphs of a text -/

/-- The glyphs of a text that follows a place. -/
def glyphsFrom (index line column : Nat) : Text -> List Glyph
  | [] => [⟨endMark, index, line, column⟩]
  | '\r' :: '\n' :: rest => ⟨'\n', index, line, column⟩ :: glyphsFrom (index + 2) (line + 1) 0 rest
  | char :: rest =>
      if endsLine char then
        ⟨breakOf char, index, line, column⟩ :: glyphsFrom (index + 1) (line + 1) 0 rest
      else
        ⟨char, index, line, column⟩ :: glyphsFrom (index + 1) line (column + 1) rest

/-- The glyphs of a text of allowed characters. A byte order mark at the start is left out, but it takes up a
column. -/
def glyphs? (text : Text) : Option (List Glyph) :=
  if text.all isAllowed then
    match text with
    | '\uFEFF' :: rest => some (glyphsFrom 1 0 1 rest)
    | _ => some (glyphsFrom 0 0 0 text)
  else none

/-- The first character of glyphs. -/
def firstOf : List Glyph -> Char
  | [] => endMark
  | glyph :: _ => glyph.char

/-- The lines of glyphs with their breaks; the end stands alone. -/
def linesOf : List Glyph -> List (List Glyph)
  | [] => []
  | glyph :: rest =>
      if isLineEnd glyph.char then [glyph] :: linesOf rest
      else
        match linesOf rest with
        | line :: lines =>
            if firstOf line = endMark then [glyph] :: line :: lines else (glyph :: line) :: lines
        | [] => [[glyph]]

/-! ### Taking glyphs -/

/-- Takes a value from the start of the remaining glyphs. -/
abbrev Taking (α : Type) := StateT (List Glyph) Option α

namespace Taking

/-- The next character, which stays. -/
def peek : Taking Char := do
  return firstOf (<- get)

/-- Take a character if it comes next. -/
def accept (char : Char) : Taking Bool := fun glyphs =>
  if firstOf glyphs = char then some (true, glyphs.drop 1) else some (false, glyphs)

/-- Take a character that has to come next. -/
def expect (char : Char) : Taking Unit := do
  guard (<- accept char)

/-- Take the longest run of characters of a class. -/
def takeWhile (test : Char -> Bool) : Taking Text := fun glyphs =>
  let run := glyphs.takeWhile fun glyph => test glyph.char
  some (run.map Glyph.char, glyphs.drop run.length)

/-- Take a run of characters of a class that is not empty. -/
def takeSome (test : Char -> Bool) : Taking Text := do
  let run <- takeWhile test
  guard !run.isEmpty
  return run

/-- Pass over blanks. -/
def skipBlanks : Taking Unit := do
  let _ <- takeWhile isBlank

/-- Take the rest of a line on which only blanks and a comment stand, with its break. -/
def lineEnd : Taking Unit := do
  skipBlanks
  if <- accept '#' then
    let _ <- takeWhile fun char => !isLineEnd char
  let char <- peek
  guard (isLineEnd char)
  if isBreak char then
    let _ <- accept char

end Taking

/-! ## Tokens -/

/-- A piece of a text. -/
inductive Token
  | versionDirective (major minor : Nat)
  | tagDirective (handle start : Text)
  | documentStart
  | documentEnd
  | blockSequenceStart
  | blockMappingStart
  | blockEnd
  | flowSequenceStart
  | flowSequenceEnd
  | flowMappingStart
  | flowMappingEnd
  /-- Before an element of a block sequence. -/
  | blockEntry
  /-- Between the elements of a flow collection. -/
  | flowEntry
  | key
  | value
  /-- An alias. -/
  | reference (name : Text)
  | anchor (name : Text)
  | tag (handle suffix : Text)
  | scalar (style : ScalarStyle) (text : Text)
  deriving DecidableEq

/-- The token of a line that starts with three dashes or three dots. -/
def marker? : List Glyph -> Option Token
  | first :: second :: third :: rest =>
      if first.column = 0 && first.char = second.char && second.char = third.char && isGap (firstOf rest) then
        if first.char = '-' then some .documentStart
        else if first.char = '.' then some .documentEnd
        else none
      else none
  | _ => none

end Yaml
end Config
end Lossless
