import Lossless.Text.Basic

/-!
# Text as bytes

The UTF-8 encoding. Reading is strict: every character has its shortest form, and nothing stands for what
is not a character.
-/

namespace Lossless
namespace Text

/-- A character whose first bytes have been read. -/
structure OpenCharacter where
  /-- The bits read so far. -/
  bits : Nat
  /-- How many bytes are to come. -/
  owed : Nat
  /-- The least code point that needs a form of this length. -/
  least : Nat

/-- The character that a byte begins; one that is complete owes nothing. -/
def openCharacter? (byte : UInt8) : Option OpenCharacter :=
  let value := byte.toNat
  if value < 0x80 then some ⟨value, 0, 0⟩
  else if value < 0xC0 then none
  else if value < 0xE0 then some ⟨value - 0xC0, 1, 0x80⟩
  else if value < 0xF0 then some ⟨value - 0xE0, 2, 0x800⟩
  else if value < 0xF8 then some ⟨value - 0xF0, 3, 0x10000⟩
  else none

/-- An open character with one byte more. -/
def OpenCharacter.extend?
    (character : OpenCharacter)
    (byte : UInt8) : Option OpenCharacter :=
  let value := byte.toNat
  if 0x80 ≤ value ∧ value < 0xC0 then
    some { character with bits := character.bits * 0x40 + (value - 0x80), owed := character.owed - 1 }
  else none

/-- The character that has been read, when nothing is owed. -/
def OpenCharacter.close? (character : OpenCharacter) : Option Char :=
  if character.least ≤ character.bits ∧ character.bits.isValidChar then some (.ofNat character.bits)
  else none

/-- Read bytes after the start of a character. -/
def decodeFrom : Option OpenCharacter -> List UInt8 -> Option Text
  | none, [] => some []
  | some _, [] => none
  | character, byte :: rest => do
      let character <-
        match character with
        | some character => character.extend? byte
        | none => openCharacter? byte
      if character.owed = 0 then
        return (<- character.close?) :: (<- decodeFrom none rest)
      else
        decodeFrom (some character) rest

/-- The text that bytes encode; nothing when they are no text. -/
def decode? (bytes : List UInt8) : Option Text :=
  decodeFrom none bytes

/-- The bytes of a text. -/
def encode (text : Text) : List UInt8 :=
  text.flatMap String.utf8EncodeChar

@[simp] theorem encode_nil : encode [] = [] := rfl

end Text
end Lossless
