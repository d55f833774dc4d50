import Lossless.Config.Yaml.Glyph

/-!
# Names, tags and directives

An anchor names a node and an alias refers to it. A tag has a handle, which a directive may define, and a
suffix. A directive stands on a line of its own before a document.
-/

namespace Lossless
namespace Config
namespace Yaml

open Taking

/-! ## Anchors and aliases -/

/-- Take the name of an anchor or an alias. -/
def anchorName : Taking Text := do
  let name <- takeSome isNamePart
  let char <- peek
  guard (isGap char || ['?', ':', ',', ']', '\x7d', '%', '@', '\x60'].contains char)
  return name

/-! ## Tags -/

/-- May stand in a suffix; some marks of flow collections only where the suffix is delimited. -/
def isSuffixPart (isDelimited : Bool) (char : Char) : Bool :=
  isNamePart char ||
    [';', '/', '?', ':', '@', '&', '=', '+', '$', '.', '%', '!', '~', '*', '\'', '(', ')'].contains char ||
    (isDelimited && [',', '[', ']'].contains char)

/-- The number of bytes that encode a character, by the first of them. -/
def encodedLength? (byte : Nat) : Option Nat :=
  if byte < 0x80 then some 1
  else if 0xC0 ≤ byte && byte < 0xE0 then some 2
  else if 0xE0 ≤ byte && byte < 0xF0 then some 3
  else if 0xF0 ≤ byte && byte < 0xF8 then some 4
  else none

/-- Take a byte that is written with a percent sign and two digits. -/
def byte : Taking Nat := do
  expect '%'
  let digits := ((<- get).take 2).map Glyph.char
  guard (digits.length = 2)
  modify fun glyphs => glyphs.drop 2
  Text.naturalIn? 16 digits

/-- Take a number of bytes that go on the encoding of a character, behind what is encoded so far. -/
def continuation : Nat -> Nat -> Taking Nat
  | 0, code => return code
  | length + 1, code => do
      let next <- byte
      guard (0x80 ≤ next && next < 0xC0)
      continuation length (code * 0x40 + next % 0x40)

/-- Take a character that is written as the bytes of its encoding. -/
def encoded : Taking Char := do
  let first <- byte
  let length <- encodedLength? first
  let lead := if length = 1 then first else first % Nat.pow 2 (7 - length)
  return .ofNat (<- continuation (length - 1) lead)

/-- Take the characters of a suffix. -/
def suffixWithin (isDelimited : Bool) : Nat -> Taking Text
  | 0 => failure
  | bound + 1 => do
      let char <- peek
      if !isSuffixPart isDelimited char then
        return []
      else if char = '%' then
        return (<- encoded) :: (<- suffixWithin isDelimited bound)
      else
        let _ <- accept char
        return char :: (<- suffixWithin isDelimited bound)

/-- Take a suffix, which may be empty. -/
def suffix (isDelimited : Bool) : Taking Text := do
  suffixWithin isDelimited ((<- get).length + 1)

/-- Take a suffix that is not empty. -/
def someSuffix (isDelimited : Bool) : Taking Text := do
  let suffix <- suffix isDelimited
  guard !suffix.isEmpty
  return suffix

/-- Take an exclamation mark with a name and another one, as far as they come next. -/
def handle : Taking Text := do
  expect '!'
  let name <- takeWhile isNamePart
  if <- accept '!' then return '!' :: name ++ ['!']
  else return '!' :: name

/-- The handle is enclosed by exclamation marks. -/
def isClosed (handle : Text) : Bool :=
  1 < handle.length && handle.getLast? = some '!'

/-- Take a tag. One without a handle that is closed belongs to the handle of one mark; a mark alone is a tag
without a handle. -/
def tag : Taking Token := do
  if firstOf ((<- get).drop 1) = '<' then
    expect '!'
    expect '<'
    let suffix <- someSuffix true
    expect '>'
    return .tag [] suffix
  else
    let handle <- handle
    if isClosed handle then
      return .tag handle (<- someSuffix false)
    else
      let suffix := handle.drop 1 ++ (<- suffix false)
      if suffix.isEmpty then return .tag [] handle
      else return .tag ['!'] suffix

/-- Take a tag that a gap or, in a flow collection, a comma follows. -/
def separateTag (inFlow : Bool) : Taking Token := do
  let tag <- tag
  let char <- peek
  guard (isGap char || (inFlow && char = ','))
  return tag

/-! ## Directives -/

/-- Take a part of a version. -/
def versionPart : Taking Nat := do
  let digits <- takeSome Char.isDigit
  guard (digits.length < 10)
  Text.naturalIn? 10 digits

/-- Take what stands after the name of a directive. -/
def directiveOf (name : Text) : Taking Token := do
  skipBlanks
  if name = "YAML".toList then
    let major <- versionPart
    expect '.'
    return .versionDirective major (<- versionPart)
  else
    guard (name = "TAG".toList)
    let handle <- handle
    guard (handle = ['!'] || isClosed handle)
    guard (isBlank (<- peek))
    skipBlanks
    let start <- someSuffix true
    guard (isGap (<- peek))
    return .tagDirective handle start

/-- Take a directive after its percent sign, with the rest of its line. -/
def directive : Taking Token := do
  let name <- takeSome isNamePart
  guard (isGap (<- peek))
  let directive <- directiveOf name
  lineEnd
  return directive

end Yaml
end Config
end Lossless
