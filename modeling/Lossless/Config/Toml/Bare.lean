import Lossless.Config.Reader
import Lossless.Config.Value
import Lossless.Number

/-!
# Values without quotes in TOML

Truth values, numbers, dates and times. No setting takes a number with a fraction, a date or a time, but they
have to be written as the format says.
-/

namespace Lossless
namespace Config
namespace Toml

open Reader

/-! ## Numbers -/

/-- The value of digits with single underscores between them. -/
def groupedDigits? (base : Nat) (text : Text) : Option Nat :=
  let groups := Text.splitAt '_' text
  if groups.any List.isEmpty then none else Text.naturalIn? base groups.flatten

/-- The value of decimal digits; zero comes first only alone. -/
def decimalDigits? (text : Text) : Option Nat :=
  if text.length = 1 || text.head? ≠ some '0' then groupedDigits? 10 text else none

/-- The value of an integer. -/
def integer? : Text -> Option Int
  | '0' :: 'x' :: digits => groupedDigits? 16 digits
  | '0' :: 'o' :: digits => groupedDigits? 8 digits
  | '0' :: 'b' :: digits => groupedDigits? 2 digits
  | '-' :: digits => (decimalDigits? digits).map fun value => -value
  | digits => decimalDigits? (Text.dropPlus digits)

/-- A text without a sign at its start. -/
def dropSign : Text -> Text
  | '-' :: rest => rest
  | text => Text.dropPlus text

/-- A number with a fraction or an exponent, or one that is not finite. -/
def isFloat (text : Text) : Bool :=
  let text := dropSign text
  let mantissa := text.takeWhile fun char => char ≠ 'e' && char ≠ 'E'
  let exponent := text.drop mantissa.length
  let whole := mantissa.takeWhile fun char => char ≠ '.'
  let fraction := mantissa.drop whole.length
  ["inf".toList, "nan".toList].contains text ||
    ((decimalDigits? whole).isSome &&
      (fraction.isEmpty || (groupedDigits? 10 (fraction.drop 1)).isSome) &&
      (exponent.isEmpty || (groupedDigits? 10 (dropSign (exponent.drop 1))).isSome) &&
      !(fraction.isEmpty && exponent.isEmpty))

/-- The value of an integer; one that does not fit into 128 bits cannot be read. -/
def integerValue (value : Int) : Value :=
  if -(Nat.pow 2 127 : Nat) ≤ value && value < (Nat.pow 2 128 : Nat) then .integer value else .unreadable

/-- The value of a number with a fraction or an exponent; one that rounds to infinity cannot be read. -/
def floatValue (text : Text) : Value :=
  let digits := text.filter fun char => char ≠ '_'
  if (Binary64.ofText? digits).any Binary64.isInfinite then .unreadable else .other

/-- The mark of a base, with no digits after it. -/
def isBareMark (text : Text) : Bool :=
  ["0x".toList, "0o".toList, "0b".toList].contains text

/-! ## Dates and times -/

/-- A number of two digits in a range. -/
def isTwoDigits (low high : Nat) (text : Text) : Bool :=
  text.length = 2 && (Text.naturalIn? 10 text).any fun value => low ≤ value && value ≤ high

/-- The number of days in a month. -/
def daysIn (year month : Nat) : Nat :=
  if month = 2 then
    if year % 4 = 0 && (year % 100 ≠ 0 || year % 400 = 0) then 29 else 28
  else if month ∈ [4, 6, 9, 11] then 30
  else 31

/-- A day of the calendar. -/
def isDate (text : Text) : Bool :=
  match Text.splitAt '-' text with
  | [year, month, day] =>
      match Text.naturalIn? 10 year, Text.naturalIn? 10 month with
      | some yearNumber, some monthNumber =>
          year.length = 4 && isTwoDigits 1 12 month && isTwoDigits 1 (daysIn yearNumber monthNumber) day
      | _, _ => false
  | _ => false

/-- A number of seconds, perhaps with a fraction. -/
def isSecond (text : Text) : Bool :=
  let whole := text.takeWhile fun char => char ≠ '.'
  let fraction := text.drop whole.length
  isTwoDigits 0 60 whole && (fraction.isEmpty || (Text.naturalIn? 10 (fraction.drop 1)).isSome)

/-- A time of the day, perhaps without seconds. -/
def isTime (text : Text) : Bool :=
  match Text.splitAt ':' text with
  | [hour, minute] => isTwoDigits 0 23 hour && isTwoDigits 0 59 minute
  | [hour, minute, second] => isTwoDigits 0 23 hour && isTwoDigits 0 59 minute && isSecond second
  | _ => false

/-- A distance to the time of Greenwich. -/
def isOffset (text : Text) : Bool :=
  match text with
  | sign :: rest =>
      (sign = '+' || sign = '-') &&
        match Text.splitAt ':' rest with
        | [hour, minute] => isTwoDigits 0 23 hour && isTwoDigits 0 59 minute
        | _ => false
  | [] => false

/-- A time of the day, perhaps with an offset. -/
def isTimeWithOffset (text : Text) : Bool :=
  let length := text.length
  isTime text ||
    (text.getLast?.any (fun char => char = 'Z' || char = 'z') && isTime text.dropLast) ||
    (isOffset (text.drop (length - 6)) && isTime (text.take (length - 6)))

/-- A date, a time or both. -/
def isMoment (text : Text) : Bool :=
  let day := text.take 10
  match text.drop 10 with
  | [] => isDate day || isTime text
  | mark :: time =>
      isTime text ||
        (isDate day && (mark = 'T' || mark = 't' || mark = ' ') && isTimeWithOffset time)

/-! ## Values -/

/-- May stand in a value without quotes. -/
def isValuePart (char : Char) : Bool :=
  char.isAlphanum || char = '+' || char = '-' || char = '.' || char = '_' || char = ':'

/-- Take the text of a value without quotes; a blank may stand between a date and a time. -/
def bareText : Reader Text := do
  let first <- takeSome isValuePart
  match <- get with
  | ' ' :: second :: _ =>
      if isDate first && second.isDigit then
        expect [' ']
        return first ++ ' ' :: (<- takeSome isValuePart)
      else
        return first
  | _ => return first

/-- The value that a text without quotes stands for; a date or a time is a table that holds no setting. -/
def bareValue? (text : Text) : Option Value :=
  if text = "true".toList then some (.truth true)
  else if text = "false".toList then some (.truth false)
  else if isBareMark text then some .unreadable
  else if isFloat text then some (floatValue text)
  else if isMoment text then some (.table [])
  else (integer? text).map integerValue

/-- Take a value without quotes. -/
def bareValue : Reader Value := do
  bareValue? (<- bareText)

end Toml
end Config
end Lossless
