import Lossless.Parse

/-!
# Lexemes

Identifiers, keywords, quoted literals and numbers, each read from the start of the remaining text.
-/

namespace Lossless
namespace Java

/-- Can stand inside a number after its first character. -/
def isNumberPart (char : Char) : Bool :=
  char.isAlphanum || char = '.' || char = '_'

/--
The rest of a quoted literal up to its closing quote, and the text after it. The flag says that the last
character was a backslash that quotes the next one; a line break ends the literal before its time.
-/
def splitQuoted? (quote : Char) : Bool -> Text -> Option (Text × Text)
  | _, [] => none
  | escaped, first :: rest =>
      if first = '\\' && !escaped then
        (splitQuoted? quote true rest).map fun (body, after) => (first :: body, after)
      else if first = '\n' then none
      else if first = quote && !escaped then some ([first], rest)
      else (splitQuoted? quote false rest).map fun (body, after) => (first :: body, after)

namespace Parser

open Lossless.Parser

/-- Whether a keyword comes next, and not a longer identifier. -/
def isKeywordNext (keyword : Text) : Parser Bool := do
  match Text.dropStart? keyword (<- get) with
  | some [] => return true
  | some (next :: _) => return !Text.isIdentifierPart next
  | none => return false

/-- Whether an identifier comes next. -/
def isIdentifierNext : Parser Bool := do
  match <- get with
  | [] => return false
  | first :: _ => return Text.isIdentifierStart first

/-- Read an identifier. -/
def identifier : Parser Text := do
  if <- isIdentifierNext then
    takeWhile Text.isIdentifierPart
  else
    fail (.expected "identifier".toList)

/-- Read the identifiers that follow, each with the gap before it. -/
def moreWords : Nat -> Parser (List (Text × Text))
  | 0 => fail .exhausted
  | bound + 1 => do
      let saved <- get
      let run <- gapText
      if <- isIdentifierNext then
        let word <- identifier
        return (run, word) :: (<- moreWords bound)
      else
        set saved
        return []

/-- Read one or more identifiers with gaps between them. -/
def words : Parser (Text × List (Text × Text)) := do
  let first <- identifier
  return (first, <- moreWords ((<- get).length + 1))

end Parser

/-- Identifiers as they were written, with the gaps before them. -/
def writtenWords (words : List (Text × Text)) : Text :=
  words.flatMap fun (run, word) => run ++ word

end Java
end Lossless
