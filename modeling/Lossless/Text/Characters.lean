import Lossless.Text.Basic
import Lossless.Text.Numeral
import Lossless.Text.Ranges

/-!
# Characters

Membership in the classes that scanning and quoting ask about. ASCII is decided directly; above it the
range tables are searched. A blank is a character with the Unicode property `White_Space`.

A quoted text stands between double quotes, and every character of it can be seen: the quote, the backslash
and the usual controls have two-character escapes, and a character that has no visible form of its own is
written with its code point in hexadecimal.
-/

namespace Lossless
namespace Text

/-- A code point lies in one of the closed ranges. -/
def inRanges
    (ranges : List (Nat × Nat))
    (codePoint : Nat) : Bool :=
  ranges.any fun range => range.1 ≤ codePoint && codePoint ≤ range.2

/-- The blanks: tab to carriage return, the space, and the other Unicode white space. -/
def isBlank (char : Char) : Bool :=
  let codePoint := char.toNat
  (0x9 ≤ codePoint && codePoint ≤ 0xd) || codePoint == 0x20 || codePoint == 0x85
    || codePoint == 0xa0 || codePoint == 0x1680
    || (0x2000 ≤ codePoint && codePoint ≤ 0x200a) || codePoint == 0x2028
    || codePoint == 0x2029 || codePoint == 0x202f || codePoint == 0x205f || codePoint == 0x3000

/-- Letters: the characters with the Unicode property `Alphabetic`. -/
def isAlphabetic (char : Char) : Bool :=
  if char.toNat < 0x80 then char.isAlpha else inRanges alphabeticRanges char.toNat

/-- Letters, digits and the other numbers of Unicode. -/
def isAlphanumeric (char : Char) : Bool :=
  if char.toNat < 0x80 then char.isAlphanum
  else inRanges alphabeticRanges char.toNat || inRanges numericRanges char.toNat

/-- Can start an identifier: a letter, the low line or the dollar sign. -/
def isIdentifierStart (char : Char) : Bool :=
  isAlphabetic char || char = '_' || char = '$'

/-- Can stand inside an identifier: what can start one, and digits. -/
def isIdentifierPart (char : Char) : Bool :=
  isAlphanumeric char || char = '_' || char = '$'

/-- A marking that combines with the character before it. -/
def isExtending (char : Char) : Bool :=
  0x80 ≤ char.toNat && inRanges extendingRanges char.toNat

/-- A character that shows something of its own; of the separators only the space does. -/
def isVisible (char : Char) : Bool :=
  if char.toNat < 0x80 then 0x20 ≤ char.toNat && char.toNat < 0x7f
  else !inRanges hiddenRanges char.toNat

/-- One character of a quoted text. -/
def escape (char : Char) : Text :=
  if char = '\x00' then ['\\', '0']
  else if char = '\t' then ['\\', 't']
  else if char = '\r' then ['\\', 'r']
  else if char = '\n' then ['\\', 'n']
  else if char = '\\' then ['\\', '\\']
  else if char = '"' then ['\\', '"']
  else if isExtending char || !isVisible char then
    ['\\', 'u', '\x7b'] ++ hexadecimal char.toNat ++ ['\x7d']
  else [char]

/-- A text between double quotes, every character visible. -/
def quoted (text : Text) : Text :=
  '"' :: text.flatMap escape ++ ['"']

/-- The line breaks and tabs of a text written as two-character escapes, all else as it is. -/
def withVisibleBreaks (text : Text) : Text :=
  text.flatMap fun char =>
    if char = '\n' then ['\\', 'n']
    else if char = '\r' then ['\\', 'r']
    else if char = '\t' then ['\\', 't']
    else [char]

end Text
end Lossless
