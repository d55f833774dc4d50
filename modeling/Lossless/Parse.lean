import Lossless.Space
import Lossless.Error

/-!
# Parsing

A parser reads a prefix of the remaining text and hands on the rest. A fault says what is wrong and what
remains at that point; its line and column follow from the text before. `gap` reads a run of blanks and
comments, `/* */` or `//` up to the end of the line.
-/

namespace Lossless

/-- What is wrong with a text. -/
inductive Complaint
  | expected (what : Text)
  | unexpected (context : Text)
  | unterminatedComment
  | unterminatedLiteral
  | unterminatedString
  | newlineInString
  | truncatedEscape
  | invalidNumber (text : Text)
  | elseWithoutIf
  /-- A loop went on longer than the text allows. -/
  | exhausted
  deriving DecidableEq

/-- A complaint and the text that remains where it arises. -/
structure Fault where
  complaint : Complaint
  rest : Text
  deriving DecidableEq

namespace Fault

/-- The next character of a text, for messages. -/
def found : Text -> Text
  | [] => "end of input".toList
  | first :: _ => ['\'', first, '\'']

/-- The message of a fault. -/
def message (fault : Fault) : Text :=
  match fault.complaint with
  | .expected what => "expected ".toList ++ what ++ ", found ".toList ++ found fault.rest
  | .unexpected context =>
      "unexpected ".toList ++ found fault.rest ++ [' '] ++ context
  | .unterminatedComment => "unterminated block comment".toList
  | .unterminatedLiteral => "unterminated literal".toList
  | .unterminatedString => "unterminated string".toList
  | .newlineInString => "newline in string".toList
  | .truncatedEscape => "truncated unicode escape".toList
  | .invalidNumber text => "invalid number '".toList ++ text ++ ['\'']
  | .elseWithoutIf => "'else' without 'if'".toList
  | .exhausted => "input exhausted".toList

/-- The fault as an error in a source. -/
def toError
    (source : Text)
    (fault : Fault) : Error :=
  let before := source.take (source.length - fault.rest.length)
  .ofCause (.parse fault.message (Text.lineOf before) (Text.columnOf before + 1))

end Fault

/-- Reads a prefix of the remaining text. -/
abbrev Parser (α : Type) := StateT Text (Except Fault) α

namespace Parser

/-- Complain at the current position. -/
def fail (complaint : Complaint) : Parser α := do
  throw ⟨complaint, <- get⟩

/-- Read a fixed text if it comes next. -/
def accept (pattern : Text) : Parser Bool := do
  match Text.dropStart? pattern (<- get) with
  | some rest => set rest; return true
  | none => return false

/-- Read a fixed text that has to come next. -/
def expect (pattern : Text) : Parser Unit := do
  unless <- accept pattern do
    fail (.expected (['\''] ++ pattern ++ ['\'']))

/-- Whether a fixed text comes next. -/
def isNext (pattern : Text) : Parser Bool := do
  return (Text.dropStart? pattern (<- get)).isSome

/-- Read the longest run of characters of a class. -/
def takeWhile (test : Char -> Bool) : Parser Text := do
  let text <- get
  set (text.dropWhile test)
  return text.takeWhile test

end Parser

/-! ## Blanks and comments -/

mutual

/-- A run of blanks and comments, and the text after it; the remaining text at an open comment. -/
def scanGap : Text -> Except Text (Text × Text)
  | [] => .ok ([], [])
  | first :: rest =>
      match first, rest with
      | '/', '/' :: body => do
          let (run, after) <- scanLine body
          return ('/' :: '/' :: run, after)
      | '/', '*' :: body => do
          let (run, after) <- scanBlock (first :: rest) body
          return ('/' :: '*' :: run, after)
      | first, rest =>
          if Text.isBlank first then do
            let (run, after) <- scanGap rest
            return (first :: run, after)
          else
            .ok ([], first :: rest)

/-- The rest of a line comment, with what of the gap follows it. -/
def scanLine : Text -> Except Text (Text × Text)
  | [] => .ok ([], [])
  | first :: rest => do
      let (run, after) <- if first = '\n' then scanGap rest else scanLine rest
      return (first :: run, after)

/-- The rest of a block comment, with what of the gap follows it. -/
def scanBlock (opened : Text) : Text -> Except Text (Text × Text)
  | [] => .error opened
  | first :: rest =>
      match first, rest with
      | '*', '/' :: outside => do
          let (run, after) <- scanGap outside
          return ('*' :: '/' :: run, after)
      | first, rest => do
          let (run, after) <- scanBlock opened rest
          return (first :: run, after)

end

namespace Parser

/-- Read a run of blanks and comments. -/
def gapText : Parser Text := fun text =>
  match scanGap text with
  | .ok parts => .ok parts
  | .error opened => .error ⟨.unterminatedComment, opened⟩

/-- Read a run of blanks and comments as a space. -/
def gap : Parser Space := do
  return .format (<- gapText)

/-- Whether a fixed text comes after the next gap; reads nothing. -/
def isNextAfterGap (pattern : Text) : Parser Bool := do
  let saved <- get
  let _ <- gapText
  let found <- isNext pattern
  set saved
  return found

end Parser
end Lossless
