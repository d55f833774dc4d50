import Lossless.Json.Node
import Lossless.Parse
import Lossless.Text.Numeral

/-!
# Parsing a data source

JSON with comments, keys without quotes and trailing commas. A string is read by a scanner with three
states: plain text, after a backslash, and inside the four bytes of a code point. A code point that is no
character, or no number, stands for the replacement character.
-/

namespace Lossless
namespace Json

open Lossless.Parser

/-! ## Strings -/

/-- Where in a string the scanner is. -/
inductive StringState
  | plain
  /-- After a backslash. -/
  | escaped
  /--
  Inside the digits of a code point: how many bytes are to come, the digits in reverse, and the text that
  remained after the `u`.
  -/
  | codePoint (bytes : Nat) (digits opened : Text)

/-- The value of a hexadecimal numeral; a plus sign may come first. -/
def hexValue? (text : Text) : Option Nat :=
  Text.naturalIn? 16 (Text.dropPlus text)

/-- What stands for a text that cannot be decoded. -/
def replacementCharacter : Char := '\uFFFD'

/-- The character with a hexadecimal code point. -/
def decodeCodePoint (digits : Text) : Char :=
  match hexValue? digits with
  | some value => if value.isValidChar then .ofNat value else replacementCharacter
  | none => replacementCharacter

/-- The character that a backslash and a character stand for. -/
def unescape (char : Char) : Char :=
  match char with
  | 'n' => '\n'
  | 't' => '\t'
  | 'r' => '\r'
  | 'b' => '\x08'
  | 'f' => '\x0c'
  | char => char

/-- What a scan of a string has found: what the string stands for, and the text after it. -/
abbrev ScannedString := Text × Text

/-- Put a character before what a scanned string stands for. -/
def prepend (char : Char) : ScannedString -> ScannedString
  | (value, rest) => (char :: value, rest)

/-- Scan the rest of a string up to its closing quote. -/
def scanString : StringState -> Text -> Except Fault ScannedString
  | .plain, [] => .error ⟨.unterminatedString, []⟩
  | .escaped, [] => .error ⟨.unterminatedString, []⟩
  | .codePoint _ _ opened, [] => .error ⟨.truncatedEscape, opened⟩
  | .plain, first :: rest =>
      if first = '"' then .ok ([], rest)
      else if first = '\\' then scanString .escaped rest
      else if first = '\n' then .error ⟨.newlineInString, rest⟩
      else prepend first <$> scanString .plain rest
  | .escaped, first :: rest =>
      if first = 'u' then scanString (.codePoint 4 [] rest) rest
      else prepend (unescape first) <$> scanString .plain rest
  | .codePoint bytes digits opened, first :: rest =>
      if bytes < first.utf8Size then .error ⟨.truncatedEscape, opened⟩
      else if bytes = first.utf8Size then
        prepend (decodeCodePoint (first :: digits).reverse) <$> scanString .plain rest
      else
        scanString (.codePoint (bytes - first.utf8Size) (first :: digits) opened) rest

namespace Parser

/-- Read a string; the opening quote comes next. -/
def string : Parser (Form Tree) := fun text => do
  let (value, rest) <- scanString .plain (text.drop 1)
  return (.literal (text.take (text.length - rest.length)) (.string value), rest)

/-! ## Other literals -/

/-- Can stand in a number. -/
def isNumberPart (char : Char) : Bool :=
  char.isDigit || char = '-' || char = '+' || char = '.' || char = 'e' || char = 'E'

/-- Read a number. -/
def number : Parser (Form Tree) := fun text =>
  let source := text.takeWhile isNumberPart
  match Binary64.ofText? source with
  | some value => .ok (.literal source (.number value), text.dropWhile isNumberPart)
  | none => .error ⟨.invalidNumber source, text⟩

/-- Read the first of some words that comes next. -/
def word : List Scalar -> Parser (Form Tree)
  | [] => fail (.expected "value".toList)
  | value :: rest => do
      if <- accept value.render then
        return .literal value.render value
      else
        word rest

/-! ## Lists -/

/-- Read the elements of a list, and its closing delimiter. -/
def elements
    (close : Text)
    (element : Space -> Parser Tree) : Nat -> Parser (List (RightPadded Tree))
  | 0 => fail .exhausted
  | bound + 1 => do
      let leading <- gap
      if <- accept close then
        return [.build (.buildAfter leading .empty)]
      else
        let first <- element leading
        let after <- gap
        if <- accept close then
          return [⟨first, after, .empty⟩]
        else if <- accept [','] then
          return ⟨first, after, .empty⟩ :: (<- elements close element bound)
        else
          fail (.expected ("',' or '".toList ++ close ++ ['\'']))

/-- Read a delimited list. -/
def delimited
    (opening close : Text)
    (element : Space -> Parser Tree) : Parser (List (RightPadded Tree)) := do
  expect opening
  elements close element ((<- get).length + 1)

/-- Read a key. -/
def key : Parser (Form Tree) := do
  match <- get with
  | first :: _ =>
      if first = '"' then string
      else if Text.isIdentifierStart first then
        return .identifier (<- takeWhile Text.isIdentifierPart)
      else fail (.expected "member key".toList)
  | [] => fail (.expected "member key".toList)

/-- Read a member. -/
def member
    (value : Space -> Parser Tree)
    (leading : Space) : Parser Tree := do
  let key <- key
  let after <- gap
  expect [':']
  let value <- value (<- gap)
  return .buildAfter leading (.member ⟨.build key, after, .empty⟩ value)

/-- Read a value, with brackets nested as deep as given. -/
def valueWithin : Nat -> Space -> Parser Tree
  | 0, _ => fail .exhausted
  | depth + 1, leading => do
      let form <-
        match <- get with
        | '\x7b' :: _ =>
            Form.object <$> delimited ['\x7b'] ['\x7d'] (member (valueWithin depth))
        | '[' :: _ => Form.array <$> delimited ['['] [']'] (valueWithin depth)
        | '"' :: _ => string
        | first :: _ =>
            if first = '-' || first.isDigit then number
            else word [.truth true, .truth false, .null]
        | [] => fail (.expected "value".toList)
      return .buildAfter leading form

/-- Read a document. -/
def document (path : Path) : Parser Tree := do
  let leading <- gap
  let value <- valueWithin ((<- get).length + 1) leading
  let eof <- gap
  match <- get with
  | [] => return .build (.document ⟨path, none, none⟩ value eof)
  | _ => fail (.unexpected "after document".toList)

end Parser

/-- Parse a source. -/
def parse
    (source : Text)
    (path : Path) : Except Error Tree :=
  match Parser.document path source with
  | .ok (tree, _) => .ok tree
  | .error fault => .error (fault.toError source)

end Json
end Lossless
