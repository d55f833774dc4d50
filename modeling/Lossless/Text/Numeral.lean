import Lossless.Text.Basic

/-!
# Numerals

Natural numbers as runs of digits, in bases up to sixteen.
-/

namespace Lossless
namespace Text

/-- The value of a digit in a base of at most sixteen. -/
def digitIn? (base : Nat) (char : Char) : Option Nat :=
  let value : Option Nat :=
    if '0' ≤ char && char ≤ '9' then some (char.toNat - '0'.toNat)
    else if 'a' ≤ char && char ≤ 'f' then some (char.toNat - 'a'.toNat + 10)
    else if 'A' ≤ char && char ≤ 'F' then some (char.toNat - 'A'.toNat + 10)
    else none
  value.filter fun value => value < base

/-- The value of a run of digits; nothing when it is empty or a character is no digit. -/
def naturalIn? (base : Nat) (text : Text) : Option Nat :=
  if text.isEmpty then none
  else
    text.foldl
      (fun value char => do return (<- value) * base + (<- digitIn? base char))
      (some 0)

/-- Drop a plus sign at the start. -/
def dropPlus : Text -> Text
  | '+' :: rest => rest
  | text => text

/-- A number in decimal. -/
def decimal (number : Nat) : Text :=
  Nat.toDigits 10 number

/-- A number in lower-case hexadecimal, without leading zeros. -/
def hexadecimal (number : Nat) : Text :=
  Nat.toDigits 16 number

/-- A number in lower-case hexadecimal with at least so many digits. -/
def hexadecimalOf (width number : Nat) : Text :=
  let digits := hexadecimal number
  List.replicate (width - digits.length) '0' ++ digits

/-- An integer in decimal. -/
def integer (number : Int) : Text :=
  if number < 0 then '-' :: decimal number.natAbs else decimal number.natAbs

end Text
end Lossless
