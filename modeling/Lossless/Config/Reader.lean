import Lossless.Text.Numeral

/-!
# Readers

A reader takes a value from the start of a text and leaves the rest, or fails. Configuration files are read
as a whole or not at all, so a failure says nothing about where it arose.
-/

namespace Lossless
namespace Config

/-- Takes a value from the start of the remaining text. -/
abbrev Reader (α : Type) := StateT Text Option α

namespace Reader

/-- The value of a whole text. -/
def readAll?
    (reader : Reader α)
    (text : Text) : Option α :=
  match reader text with
  | some (value, []) => some value
  | _ => none

/-- Take the next character. -/
def next : Reader Char := fun text =>
  match text with
  | first :: rest => some (first, rest)
  | [] => none

/-- The next character, which stays. -/
def peek? : Reader (Option Char) := do
  return (<- get).head?

/-- Take a fixed text if it comes next. -/
def accept (pattern : Text) : Reader Bool := fun text =>
  match Text.dropStart? pattern text with
  | some rest => some (true, rest)
  | none => some (false, text)

/-- Take a fixed text that has to come next. -/
def expect (pattern : Text) : Reader Unit := do
  guard (<- accept pattern)

/-- Take the longest run of characters of a class. -/
def takeWhile (test : Char -> Bool) : Reader Text := fun text =>
  some (text.takeWhile test, text.dropWhile test)

/-- Take a run of characters of a class that is not empty. -/
def takeSome (test : Char -> Bool) : Reader Text := do
  let run <- takeWhile test
  guard !run.isEmpty
  return run

/-- Pass over characters of a class. -/
def skipWhile (test : Char -> Bool) : Reader Unit := do
  let _ <- takeWhile test

/-- Take a number of some length in hexadecimal. -/
def hexadecimal (length : Nat) : Reader Nat := do
  let text <- get
  let digits := text.take length
  guard (digits.length = length)
  set (text.drop length)
  Text.naturalIn? 16 digits

/-- How a list of elements is written. -/
structure ListForm where
  close : Text
  /-- Passes over what may stand between the elements and the delimiters. -/
  skip : Reader Unit
  /-- A comma may stand after the last element. -/
  allowsTrailing : Bool

/-- Take the elements of a list, separated by commas, and its closing delimiter. -/
def elements
    (form : ListForm)
    (element : Reader α)
    (mayClose : Bool) : Nat -> Reader (List α)
  | 0 => failure
  | bound + 1 => do
      form.skip
      let isClosed <- if mayClose then accept form.close else pure false
      if isClosed then
        return []
      else
        let first <- element
        form.skip
        if <- accept form.close then
          return [first]
        else
          expect [',']
          return first :: (<- elements form element form.allowsTrailing bound)

/-- Take a list after its opening delimiter. -/
def list
    (form : ListForm)
    (element : Reader α) : Reader (List α) := do
  elements form element true ((<- get).length + 1)

end Reader
end Config
end Lossless
