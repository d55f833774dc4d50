import Lossless.Config.Reader
import Lossless.Config.Value

/-!
# Configuration in JSON

The strict form of the format: no comments, no trailing commas, keys between double quotes. What is written
has one entry a line, indented by two columns.
-/

namespace Lossless
namespace Config
namespace Json

open Reader

/-! ## Reading -/

/-- A blank between the tokens. -/
def isBlank (char : Char) : Bool :=
  char = ' ' || char = '\t' || char = '\n' || char = '\r'

/-- Pass over blanks. -/
def skip : Reader Unit := skipWhile isBlank

/-- The code unit that an escape stands for, after its backslash. -/
def escaped : Reader Nat := do
  match <- next with
  | '"' => return 0x22
  | '\\' => return 0x5C
  | '/' => return 0x2F
  | 'b' => return 0x08
  | 'f' => return 0x0C
  | 'n' => return 0x0A
  | 'r' => return 0x0D
  | 't' => return 0x09
  | 'u' => hexadecimal 4
  | _ => failure

/-- Take the code units of a string and its closing quote. -/
def units : Nat -> Reader (List Nat)
  | 0 => failure
  | bound + 1 => do
      match <- next with
      | '"' => return []
      | '\\' => return (<- escaped) :: (<- units bound)
      | char =>
          guard (0x20 ≤ char.toNat)
          return char.toNat :: (<- units bound)

/-- The first half of a surrogate pair. -/
def isHighSurrogate (unit : Nat) : Bool := 0xD800 ≤ unit && unit < 0xDC00

/-- The second half of a surrogate pair. -/
def isLowSurrogate (unit : Nat) : Bool := 0xDC00 ≤ unit && unit < 0xE000

/-- The text of code units; nothing when half of a surrogate pair stands alone. -/
def ofUnits? : List Nat -> Option Text
  | [] => some []
  | first :: rest =>
      if isHighSurrogate first then
        match rest with
        | [] => none
        | second :: rest =>
            if isLowSurrogate second then
              let point := 0x10000 + (first - 0xD800) * 0x400 + (second - 0xDC00)
              (ofUnits? rest).map (Char.ofNat point :: ·)
            else none
      else if isLowSurrogate first then none
      else (ofUnits? rest).map (Char.ofNat first :: ·)

/-- Take a string after its opening quote; one with half of a surrogate pair has no text. -/
def string : Reader (Option Text) := do
  return ofUnits? (<- units ((<- get).length + 1))

/-- Take a number. -/
def number : Reader Value := do
  let isNegative <- accept ['-']
  let digits <- takeSome Char.isDigit
  guard (digits.length = 1 || digits.head? ≠ some '0')
  let isFraction <- accept ['.']
  if isFraction then
    let _ <- takeSome Char.isDigit
  let isScaled := (<- peek?).any fun char => char = 'e' || char = 'E'
  if isScaled then
    let _ <- next
    unless <- accept ['+'] do
      let _ <- accept ['-']
    let _ <- takeSome Char.isDigit
  let value <- Text.naturalIn? 10 digits
  if isFraction || isScaled || (isNegative && value = 0) then return .other
  else return .integer (if isNegative then -value else value)

/-- The value of a table; one with a key that has no text is no table of settings. -/
def tableOf (entries : List (Option Text × Value)) : Value :=
  match entries.mapM fun (key, value) => key.map fun key => (key, value) with
  | some entries => .table entries
  | none => .other

/-- Take a value, with brackets nested as deep as given. -/
def valueWithin : Nat -> Reader Value
  | 0 => failure
  | depth + 1 => do
      match <- peek? with
      | some '\x7b' =>
          expect ['\x7b']
          let entry : Reader (Option Text × Value) := do
            expect ['"']
            let key <- string
            skip
            expect [':']
            skip
            return (key, <- valueWithin depth)
          return tableOf (<- list ⟨['\x7d'], skip, false⟩ entry)
      | some '[' =>
          expect ['[']
          return .list (<- list ⟨[']'], skip, false⟩ (valueWithin depth))
      | some '"' =>
          expect ['"']
          return (<- string).elim .other .string
      | some 't' => expect "true".toList; return .truth true
      | some 'f' => expect "false".toList; return .truth false
      | some 'n' => expect "null".toList; return .null
      | _ => number

/-- Take a document. -/
def document : Reader Value := do
  skip
  let value <- valueWithin ((<- get).length + 1)
  skip
  return value

/-! ## Writing -/

/-- A character in a string. -/
def escape (char : Char) : Text :=
  if char = '"' || char = '\\' then ['\\', char]
  else if char = '\x08' then ['\\', 'b']
  else if char = '\x0c' then ['\\', 'f']
  else if char = '\n' then ['\\', 'n']
  else if char = '\r' then ['\\', 'r']
  else if char = '\t' then ['\\', 't']
  else if char < ' ' then ['\\', 'u'] ++ Text.hexadecimalOf 4 char.toNat
  else [char]

/-- A text between double quotes. -/
def quote (text : Text) : Text :=
  '"' :: text.flatMap escape ++ ['"']

/-- Pieces between delimiters, each on a line of its own, indented two columns more than the delimiters. -/
def block
    (opening closing : Char)
    (margin : Text)
    (pieces : List Text) : Text :=
  if pieces.isEmpty then [opening, closing]
  else
    let separator := ",\n  ".toList ++ margin
    [opening] ++ "\n  ".toList ++ margin ++ separator.intercalate pieces ++ ['\n'] ++ margin ++ [closing]

mutual

/-- A value after a margin. -/
def write (margin : Text) : Value -> Text
  | .null => "null".toList
  | .truth value => if value then "true".toList else "false".toList
  | .integer value => Text.integer value
  | .string text => quote text
  | .scalar scalar => quote scalar.text
  | .other => "null".toList
  | .unreadable => "null".toList
  | .list values => block '[' ']' margin (writeAll (' ' :: ' ' :: margin) values)
  | .table entries => block '\x7b' '\x7d' margin (writeEntries (' ' :: ' ' :: margin) entries)

/-- Every value of a list. -/
def writeAll (margin : Text) : List Value -> List Text
  | [] => []
  | value :: rest => write margin value :: writeAll margin rest

/-- Every entry of a table. -/
def writeEntries (margin : Text) : List (Text × Value) -> List Text
  | [] => []
  | (name, value) :: rest =>
      (quote name ++ [':', ' '] ++ write margin value) :: writeEntries margin rest

end

end Json

namespace Value

/-- Read a value. -/
def ofJson? (text : Text) : Option Value :=
  Json.document.readAll? text

/-- Write a value. -/
def toJson (value : Value) : Text :=
  Json.write [] value

end Value
end Config
end Lossless
