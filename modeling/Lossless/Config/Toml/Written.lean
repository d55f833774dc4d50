import Lossless.Config.Value

/-!
# Writing configuration in TOML

Every table has a section with a header, in the order of the entries, and an empty line stands before it. A
table that only holds tables needs no header. An array with more than one element has a line for each.
-/

namespace Lossless
namespace Config
namespace Toml

/-! ## Strings -/

/-- A way to write a string. -/
inductive Quoting
  /-- Between double quotes, with escapes. -/
  | basic
  /-- Between single quotes, as it is. -/
  | literal
  /-- Between three double quotes, with escapes. -/
  | basicBlock
  /-- Between three single quotes, as it is. -/
  | literalBlock

/-- The length of the longest run of a character. -/
def longestRun (mark : Char) (text : Text) : Nat :=
  let step := fun (longest, run) char =>
    let run := if char = mark then run + 1 else 0
    (max longest run, run)
  (text.foldl step (0, 0)).1

/-- A control that can only be written as an escape. -/
def needsEscape (char : Char) : Bool :=
  (char < ' ' && char ≠ '\t' && char ≠ '\n') || char = '\x7f'

/-- The plainest way to write a string. -/
def Quoting.plainest (text : Text) : Quoting :=
  let hasControls := text.any needsEscape
  let hasBackslash := '\\' ∈ text
  let hasBreak := '\n' ∈ text
  let doubles := longestRun '"' text
  let singles := longestRun '\'' text
  if !hasControls && !hasBackslash && !hasBreak && doubles = 0 then .basic
  else if !hasControls && !hasBreak && singles = 0 then .literal
  else if !hasControls && !hasBackslash && doubles ≤ 2 then .basicBlock
  else if !hasControls && singles ≤ 2 then .literalBlock
  else if hasBreak then .basicBlock
  else .basic

/-- A character that is no quote, between double quotes. -/
def escape (isBlock : Bool) (char : Char) : Text :=
  if char = '\\' then ['\\', '\\']
  else if char = '\x08' then ['\\', 'b']
  else if char = '\t' then ['\\', 't']
  else if char = '\n' then if isBlock then ['\n'] else ['\\', 'n']
  else if char = '\x0c' then ['\\', 'f']
  else if char = '\r' then ['\\', 'r']
  else if char < ' ' || char = '\x7f' then ['\\', 'u'] ++ (Text.hexadecimalOf 4 char.toNat).map Char.toUpper
  else [char]

/-- A text between double quotes; so many quotes in a row may stand as they are. -/
def escapeAll (isBlock : Bool) (allowed run : Nat) : Text -> Text
  | [] => []
  | char :: rest =>
      if char = '"' then
        if run < allowed then '"' :: escapeAll isBlock allowed (run + 1) rest
        else '\\' :: '"' :: escapeAll isBlock allowed 0 rest
      else
        escape isBlock char ++ escapeAll isBlock allowed 0 rest

/-- A string. -/
def writeString (text : Text) : Text :=
  let opening : Text := if '\n' ∈ text then ['\n'] else []
  match Quoting.plainest text with
  | .basic => '"' :: escapeAll false 0 0 text ++ ['"']
  | .literal => '\'' :: text ++ ['\'']
  | .basicBlock => ['"', '"', '"'] ++ opening ++ escapeAll true 2 0 text ++ ['"', '"', '"']
  | .literalBlock => ['\'', '\'', '\''] ++ opening ++ text ++ ['\'', '\'', '\'']

/-- A key; one that is not made of letters, digits, `_` and `-` stands between quotes. -/
def writeKey (name : Text) : Text :=
  let isPlain := !name.isEmpty && name.all fun char => char.isAlphanum || char = '_' || char = '-'
  if isPlain then name else writeString name

/-! ## Values and tables -/

mutual

/-- A value after an equals sign. -/
def writeValue : Value -> Text
  | .truth value => if value then "true".toList else "false".toList
  | .integer value => Text.integer value
  | .string text => writeString text
  | .scalar scalar => writeString scalar.text
  | .list values =>
      match writeAll values with
      | [] => ['[', ']']
      | [only] => ['['] ++ only ++ [']']
      | items => ['[', '\n'] ++ items.flatMap (fun item => "    ".toList ++ item ++ [',', '\n']) ++ [']']
  | .table _ => []
  | .null => []
  | .other => []
  | .unreadable => []

/-- Every value of an array. -/
def writeAll : List Value -> List Text
  | [] => []
  | value :: rest => writeValue value :: writeAll rest

end

/-- The line of an entry that is no table. -/
def writeSetting? (entry : Text × Value) : Option Text :=
  match entry.2 with
  | .table _ => none
  | value => some (writeKey entry.1 ++ [' ', '=', ' '] ++ writeValue value ++ ['\n'])

/-- The section of a table, if it needs one. -/
def section? (path : List Text) (entries : List (Text × Value)) : Option Text :=
  let lines := entries.filterMap writeSetting?
  if lines.isEmpty && (path.isEmpty || !entries.isEmpty) then none
  else
    let header := if path.isEmpty then [] else ['['] ++ ['.'].intercalate (path.map writeKey) ++ [']', '\n']
    some (header ++ lines.flatten)

mutual

/-- The sections of a value under a path. -/
def sections (path : List Text) : Value -> List Text
  | .table entries => (section? path entries).toList ++ sectionsBelow path entries
  | _ => []

/-- The sections of the tables in a table. -/
def sectionsBelow (path : List Text) : List (Text × Value) -> List Text
  | [] => []
  | (name, value) :: rest => sections (path ++ [name]) value ++ sectionsBelow path rest

end

end Toml

/-- Write a table. -/
def Value.toToml (value : Value) : Text :=
  ['\n'].intercalate (Toml.sections [] value)

end Config
end Lossless
