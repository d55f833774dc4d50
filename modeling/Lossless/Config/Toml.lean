import Lossless.Config.Toml.Bare
import Lossless.Config.Toml.Table

/-!
# Reading configuration in TOML

Version 1.1 of the format. Keys have a bounded number of parts, and brackets are nested to a bounded depth.
-/

namespace Lossless
namespace Config
namespace Toml

open Reader

/-! ## Blanks, comments and line ends -/

/-- A blank inside a line. -/
def isBlank (char : Char) : Bool := char = ' ' || char = '\t'

/-- May stand in a comment or a string as it is. -/
def isPrintable (char : Char) : Bool :=
  char = '\t' || (' ' ≤ char && char ≠ '\x7f')

/-- Pass over blanks. -/
def skip : Reader Unit := skipWhile isBlank

/-- Take a line break if it comes next. -/
def lineBreak : Reader Bool := do
  if <- accept ['\n'] then return true
  else accept ['\r', '\n']

/-- Take a comment if it comes next. -/
def comment : Reader Bool := do
  if <- accept ['#'] then
    skipWhile isPrintable
    return true
  else
    return false

/-- Take the rest of a line on which nothing else stands. -/
def lineEnd : Reader Unit := do
  skip
  let _ <- comment
  unless (<- get).isEmpty do
    guard (<- lineBreak)

/-- Pass over blanks, comments and line breaks. -/
def skipLinesWithin : Nat -> Reader Unit
  | 0 => failure
  | bound + 1 => do
      skip
      let isComment <- comment
      let isBreak <- lineBreak
      if isComment || isBreak then skipLinesWithin bound

/-- Pass over blanks, comments and line breaks. -/
def skipLines : Reader Unit := do
  skipLinesWithin ((<- get).length + 1)

/-- Pass over blanks and line breaks. -/
def skipBreaksWithin : Nat -> Reader Unit
  | 0 => failure
  | bound + 1 => do
      skip
      if <- lineBreak then skipBreaksWithin bound

/-! ## Strings -/

/-- The character with a code point in hexadecimal. -/
def codePoint (length : Nat) : Reader Char := do
  let value <- hexadecimal length
  guard value.isValidChar
  return .ofNat value

/-- The character that an escape stands for, after its backslash. -/
def escaped : Reader Char := do
  match <- next with
  | 'b' => return '\x08'
  | 't' => return '\t'
  | 'n' => return '\n'
  | 'f' => return '\x0c'
  | 'r' => return '\r'
  | 'e' => return '\x1b'
  | '"' => return '"'
  | '\\' => return '\\'
  | 'x' => codePoint 2
  | 'u' => codePoint 4
  | 'U' => codePoint 8
  | _ => failure

/-- Take the rest of a string on one line. -/
def lineString
    (quote : Char)
    (hasEscapes : Bool) : Nat -> Reader Text
  | 0 => failure
  | bound + 1 => do
      let char <- next
      if char = quote then return []
      else
        guard (isPrintable char)
        let char <- if hasEscapes && char = '\\' then escaped else pure char
        return char :: (<- lineString quote hasEscapes bound)

/-- Take a line break after a backslash, with the blanks around it and the empty lines after it. -/
def continuedLine : Reader Bool := do
  let saved <- get
  skip
  if <- lineBreak then
    skipBreaksWithin (saved.length + 1)
    return true
  else
    set saved
    return false

/-- Take the rest of a string over several lines, line breaks as they are; two more quotes may stand before
the closing ones. -/
def blockString
    (quote : Char)
    (hasEscapes : Bool) : Nat -> Reader Text
  | 0 => failure
  | bound + 1 => do
      if <- accept [quote, quote, quote] then
        let first <- accept [quote]
        let second <- if first then accept [quote] else pure false
        return List.replicate (first.toNat + second.toNat) quote
      else if <- accept ['\n'] then
        return '\n' :: (<- blockString quote hasEscapes bound)
      else if <- accept ['\r', '\n'] then
        return '\r' :: '\n' :: (<- blockString quote hasEscapes bound)
      else
        let char <- next
        guard (isPrintable char)
        if hasEscapes && char = '\\' then
          if <- continuedLine then blockString quote hasEscapes bound
          else return (<- escaped) :: (<- blockString quote hasEscapes bound)
        else
          return char :: (<- blockString quote hasEscapes bound)

/-- Take a string with a kind of quotes; only between double quotes there are escapes. -/
def stringWith (quote : Char) : Reader Text := do
  let bound := (<- get).length + 1
  if <- accept [quote, quote, quote] then
    let _ <- lineBreak
    blockString quote (quote = '"') bound
  else
    expect [quote]
    lineString quote (quote = '"') bound

/-! ## Keys -/

/-- May stand in a key without quotes. -/
def isKeyPart (char : Char) : Bool :=
  char.isAlphanum || char = '_' || char = '-'

/-- Take one part of a key. -/
def keyPart : Reader Text := do
  let bound := (<- get).length + 1
  match <- peek? with
  | some '"' => expect ['"']; lineString '"' true bound
  | some '\'' => expect ['\'']; lineString '\'' false bound
  | _ => takeSome isKeyPart

/-- Take the parts of a key, separated by dots. -/
def keyWithin : Nat -> Reader (List Text)
  | 0 => failure
  | bound + 1 => do
      skip
      let first <- keyPart
      skip
      if <- accept ['.'] then return first :: (<- keyWithin bound)
      else return [first]

/-- The greatest number of parts of a key, and the greatest depth of brackets. -/
def depthLimit : Nat := 80

/-- Take a key. -/
def key : Reader (List Text) := keyWithin depthLimit

/-! ## Values -/

/-- The table with the keys of an inline table. -/
def inlineTable? (entries : List (List Text × Value)) : Option Value := do
  let entries <- entries.foldlM
    (fun entries (path, value) =>
      defineKey path.dropLast (path.getLastD []) value .header entries) []
  return .table (toEntries entries)

/-- Take a value that is no collection. -/
def simpleValue : Reader Value := do
  match <- peek? with
  | some '"' => return .string (<- stringWith '"')
  | some '\'' => return .string (<- stringWith '\'')
  | _ => bareValue

/-- Take a value, with brackets nested at most as deep as given. -/
def valueWithin : Nat -> Reader Value
  | 0 => simpleValue
  | depth + 1 => do
      match <- peek? with
      | some '[' =>
          expect ['[']
          return .list (<- list ⟨[']'], skipLines, true⟩ (valueWithin depth))
      | some '\x7b' =>
          expect ['\x7b']
          let entry : Reader (List Text × Value) := do
            let path <- key
            skipLines
            expect ['=']
            skipLines
            return (path, <- valueWithin depth)
          inlineTable? (<- list ⟨['\x7d'], skipLines, true⟩ entry)
      | _ => simpleValue

/-! ## Documents -/

/-- What has been read of a document: the tables, and the path of the header in force. -/
structure Document where
  entries : Entries := []
  header : List Text := []

/-- Change the table that a path of headers leads to. -/
def Document.changeAt
    (document : Document)
    (path : List Text)
    (change : Origin -> Entries -> Option Entries) : Option Entries :=
  Toml.changeAt false change path .header document.entries

/-- Take a header or the setting of a key. -/
def statement (document : Document) : Reader Document := do
  let isElement <- accept ['[', '[']
  let isTable <- if isElement then pure false else accept ['[']
  let path <- key
  let (parents, name) := (path.dropLast, path.getLastD [])
  if isElement then
    expect [']', ']']
    return ⟨<- document.changeAt parents (openElement name), path⟩
  else if isTable then
    expect [']']
    return ⟨<- document.changeAt parents (openTable name), path⟩
  else
    expect ['=']
    skip
    let value <- valueWithin depthLimit
    return { document with
      entries := <- document.changeAt document.header (defineKey parents name value) }

/-- Take the statements up to the end. -/
def statements : Nat -> Document -> Reader Document
  | 0, _ => failure
  | bound + 1, document => do
      skipLines
      if (<- get).isEmpty then
        return document
      else
        let document <- statement document
        lineEnd
        statements bound document

/-- Take a document; a byte order mark may come first. -/
def document : Reader Value := do
  let _ <- accept ['\uFEFF']
  let document <- statements ((<- get).length + 1) {}
  return .table (toEntries document.entries)

end Toml

/-- Read a value. -/
def Value.ofToml? (text : Text) : Option Value :=
  Toml.document.readAll? text

end Config
end Lossless
