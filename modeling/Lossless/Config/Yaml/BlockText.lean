import Lossless.Config.Yaml.Glyph

/-!
# Block scalars

A block scalar takes the lines below its header that have its indentation. A literal one keeps its lines; a
folded one joins lines that do not start with a blank. The header decides about the line breaks at the end.
-/

namespace Lossless
namespace Config
namespace Yaml

/-- What becomes of the line breaks at the end. -/
inductive Chomping
  /-- None stays. -/
  | strip
  /-- The break of the last line stays. -/
  | clip
  /-- All stay. -/
  | keep

/-- Take a sign for the line breaks at the end if one comes next. -/
def chomping? : Taking (Option Chomping) := do
  if <- Taking.accept '-' then return some .strip
  else if <- Taking.accept '+' then return some .keep
  else return none

/-- Take a digit for the indentation if one comes next; it is not zero. -/
def indentation? : Taking (Option Nat) := do
  let char <- Taking.peek
  if char.isDigit then
    guard (char ≠ '0')
    let _ <- Taking.accept char
    return some (char.toNat - '0'.toNat)
  else return none

/-- Take the header of a block scalar: two signs in either order, and the rest of the line. -/
def blockHeader : Taking (Chomping × Option Nat) := do
  let earlier <- chomping?
  let indentation <- indentation?
  let later <- if earlier.isNone && indentation.isSome then chomping? else pure none
  Taking.lineEnd
  return ((earlier.or later).getD .clip, indentation)

/-- What is known of a block scalar. -/
structure Block where
  isFolded : Bool
  chomping : Chomping
  /-- The column of its lines; the first line with characters decides it if the header does not. -/
  column : Option Nat
  /-- The least column of its lines. -/
  least : Nat
  /-- The break of the last line. -/
  lastBreak : Text := []
  /-- The breaks of the empty lines after it. -/
  emptyBreaks : Text := []
  /-- The last line starts with a blank. -/
  wasBlank : Bool := false

namespace Block

/-- The glyph has reached the column of the lines, if it is known. -/
def isIndented (block : Block) (glyph : Glyph) : Bool :=
  match block.column with
  | some column => column ≤ glyph.column
  | none => false

/-- What the breaks before a line stand for; the line may start with a blank. -/
def joint (block : Block) (isBlankLine : Bool) : Text :=
  if block.isFolded && block.lastBreak = ['\n'] && !block.wasBlank && !isBlankLine then
    if block.emptyBreaks.isEmpty then [' '] else block.emptyBreaks
  else block.lastBreak ++ block.emptyBreaks

/-- The breaks at the end that stay. -/
def ending (block : Block) : Text :=
  match block.chomping with
  | .strip => []
  | .clip => block.lastBreak
  | .keep => block.lastBreak ++ block.emptyBreaks

/-- Add an empty line with a break at a place. -/
def addEmpty (block : Block) (glyph : Glyph) : Block :=
  { block with
    emptyBreaks := block.emptyBreaks ++ [glyph.char]
    least := max block.least glyph.column }

/-- Add a line, which starts with a character and has a break. -/
def addLine
    (block : Block)
    (column : Nat)
    (first : Char)
    (lineBreak : Text) : Block :=
  { block with
    column := some column
    lastBreak := lineBreak
    emptyBreaks := []
    wasBlank := isBlank first }

/-- Take the lines of a block scalar. A tab may not stand for indentation. -/
def lines (block : Block) : List (List Glyph) -> Option (Text × List Glyph)
  | [] => none
  | line :: below =>
      match line.dropWhile fun glyph => glyph.char = ' ' && !block.isIndented glyph with
      | [] => lines block below
      | glyph :: rest =>
          if glyph.char = '\t' && !block.isIndented glyph then none
          else if isBreak glyph.char then lines (block.addEmpty glyph) below
          else
            let column := block.column.getD (max block.least glyph.column)
            if glyph.char ≠ endMark && glyph.column = column then
              let content := ((glyph :: rest).map Glyph.char).filter fun char => !isBreak char
              let lineBreak := (rest.map Glyph.char).filter isBreak
              (lines (block.addLine column glyph.char lineBreak) below).map fun (more, rest) =>
                (block.joint (isBlank glyph.char) ++ content ++ more, rest)
            else some (block.ending, glyph :: rest ++ below.flatten)

end Block

/-- Take a block scalar after its mark, inside block collections that start at some columns. -/
def blockText
    (isFolded : Bool)
    (columns : List Nat) : Taking Text := do
  let (chomping, indentation) <- blockHeader
  let outer := columns.head?
  let block : Block :=
    { isFolded, chomping
      column := indentation.map fun indentation => outer.getD 0 + indentation
      least := max 1 (outer.elim 0 (· + 1)) }
  fun glyphs => block.lines (linesOf glyphs)

end Yaml
end Config
end Lossless
