import Lossless.Config.Yaml.Glyph

/-!
# Scalars that flow over lines

Scalars with quotes and without. Their line breaks are folded: one becomes a blank, and of several in a row
all but the first stay. Blanks around line breaks are left out.
-/

namespace Lossless
namespace Config
namespace Yaml

/-! ## Folding -/

/-- Blanks and line breaks inside a scalar. -/
structure Fold where
  blanks : Text := []
  /-- A line break has been passed. -/
  isBroken : Bool := false
  /-- The first line break, if it is not escaped. -/
  first : Text := []
  /-- The line breaks after the first. -/
  more : Text := []

namespace Fold

/-- Nothing but a line break that is escaped. -/
def escapedBreak : Fold := { isBroken := true }

/-- Add a blank or a line break. -/
def add (fold : Fold) (char : Char) : Fold :=
  if isBreak char then
    if fold.isBroken then { fold with more := fold.more ++ [char] }
    else { isBroken := true, first := [char] }
  else if fold.isBroken then fold
  else { fold with blanks := fold.blanks ++ [char] }

/-- What the blanks and line breaks stand for. -/
def text (fold : Fold) : Text :=
  if !fold.isBroken then fold.blanks
  else if fold.first = ['\n'] then
    if fold.more.isEmpty then [' '] else fold.more
  else fold.first ++ fold.more

end Fold

/-! ## Scalars with quotes -/

/-- What a backslash stands for, with the number of characters after it that belong to it. -/
inductive Escape
  | char (char : Char) (length : Nat)
  | lineBreak

/-- The character with a code point in hexadecimal, after the letter that says so. -/
def codePoint?
    (length : Nat)
    (glyphs : List Glyph) : Option Escape := do
  let digits := (glyphs.take length).map Glyph.char
  guard (digits.length = length)
  let value <- Text.naturalIn? 16 digits
  guard value.isValidChar
  return .char (.ofNat value) (length + 1)

/-- What the characters after a backslash stand for. -/
def escape? : List Glyph -> Option Escape
  | [] => none
  | glyph :: rest =>
      if isBreak glyph.char then some .lineBreak
      else
        match glyph.char with
        | '0' => some (.char '\x00' 1)
        | 'a' => some (.char '\x07' 1)
        | 'b' => some (.char '\x08' 1)
        | 't' | '\t' => some (.char '\t' 1)
        | 'n' => some (.char '\n' 1)
        | 'v' => some (.char '\x0b' 1)
        | 'f' => some (.char '\x0c' 1)
        | 'r' => some (.char '\r' 1)
        | 'e' => some (.char '\x1b' 1)
        | ' ' => some (.char ' ' 1)
        | '"' => some (.char '"' 1)
        | '/' => some (.char '/' 1)
        | '\\' => some (.char '\\' 1)
        | 'N' => some (.char '\u0085' 1)
        | '_' => some (.char '\u00a0' 1)
        | 'L' => some (.char '\u2028' 1)
        | 'P' => some (.char '\u2029' 1)
        | 'x' => codePoint? 2 rest
        | 'u' => codePoint? 4 rest
        | 'U' => codePoint? 8 rest
        | _ => none

/-- Put a text before the text that has been taken. -/
def prepend
    (text : Text)
    (taken : Option (Text × List Glyph)) : Option (Text × List Glyph) :=
  taken.map fun (more, rest) => (text ++ more, rest)

/--
Take the rest of a scalar with a kind of quotes; a single quote inside is written twice, and only between
double quotes there are escapes. The counter is how many characters are still to be passed over, and the
fold is what stands before them.
-/
def quotedFrom (quote : Char) : Nat -> Fold -> Taking Text
  | _, _, [] => none
  | skip + 1, fold, _ :: rest => quotedFrom quote skip fold rest
  | 0, fold, glyph :: rest =>
      if isBlank glyph.char || isBreak glyph.char then
        quotedFrom quote 0 (fold.add glyph.char) rest
      else if glyph.char = endMark || (marker? (glyph :: rest)).isSome then none
      else if glyph.char = quote then
        if quote = '\'' && firstOf rest = quote then
          prepend (fold.text ++ [quote]) (quotedFrom quote 1 {} rest)
        else some (fold.text, rest)
      else if quote = '"' && glyph.char = '\\' then
        match escape? rest with
        | none => none
        | some .lineBreak => prepend fold.text (quotedFrom quote 1 .escapedBreak rest)
        | some (.char char length) => prepend (fold.text ++ [char]) (quotedFrom quote length {} rest)
      else prepend (fold.text ++ [glyph.char]) (quotedFrom quote 0 {} rest)

/-- Take a scalar after its opening quote. -/
def quoted (quote : Char) : Taking Text := quotedFrom quote 0 {}

/-! ## Scalars without quotes -/

/-- Says what follows it, so that no scalar without quotes starts with it. -/
def isIndicator (char : Char) : Bool :=
  ['#', '&', '*', '!', '|', '>', '\'', '"', '%', '@', '\x60'].contains char

/-- A scalar without quotes can start with a character that another one follows. -/
def startsPlain (inFlow : Bool) (first second : Char) : Bool :=
  if first = '-' then !isBlank second
  else if first = '?' || first = ':' then !inFlow && !isGap second
  else !isGap first && !isFlowMark first && !isIndicator first

/-- Where a scalar without quotes stands. -/
structure PlainContext where
  inFlow : Bool
  /-- The column that the lines below have to reach. -/
  column : Nat

/-- The scalar ends before these glyphs, which a blank or a line break precedes. -/
def PlainContext.endsAfterGap
    (context : PlainContext)
    (glyph : Glyph)
    (rest : List Glyph) : Bool :=
  (!context.inFlow && glyph.column < context.column) || (marker? (glyph :: rest)).isSome ||
    glyph.char = '#'

/--
Take the rest of a scalar without quotes, and whether a line break has been passed after it. A tab may not
stand for indentation, and a colon in a flow collection may not touch a delimiter.
-/
def plainFrom (context : PlainContext) (fold : Fold) : Taking (Text × Bool)
  | [] => none
  | glyph :: rest =>
      let ended := some (([], fold.isBroken), glyph :: rest)
      let isAfterGap := fold.isBroken || !fold.blanks.isEmpty
      if isBlank glyph.char || isBreak glyph.char then
        if glyph.char = '\t' && fold.isBroken && glyph.column < context.column then none
        else plainFrom context (fold.add glyph.char) rest
      else if glyph.char = endMark then ended
      else if isAfterGap && context.endsAfterGap glyph rest then ended
      else if context.inFlow && glyph.char = ':' &&
          (isFlowMark (firstOf rest) || firstOf rest = '?') then none
      else if (glyph.char = ':' && isGap (firstOf rest)) || (context.inFlow && isFlowMark glyph.char) then
        ended
      else
        (plainFrom context {} rest).map fun ((more, isBroken), rest) =>
          ((fold.text ++ glyph.char :: more, isBroken), rest)

/-- Take a scalar without quotes, and whether a line break has been passed after it. -/
def plain (context : PlainContext) : Taking (Text × Bool) := plainFrom context {}

end Yaml
end Config
end Lossless
