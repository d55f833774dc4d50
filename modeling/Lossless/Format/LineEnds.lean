import Lossless.Text.Basic
import Lossless.Word

/-!
# Line ends

Capping runs of blank lines, stripping blanks before line breaks, and making all line breaks alike.
-/

namespace Lossless
namespace Format

/-- Part of a line break. -/
def isBreak (char : Char) : Bool :=
  char = '\r' || char = '\n'

/-- The line breaks alone. -/
def onlyLineBreaks (whitespace : Text) : Text :=
  whitespace.filter isBreak

/-- Some line feed comes right after a carriage return. -/
def containsCrlf : Text -> Bool
  | '\r' :: '\n' :: _ => true
  | _ :: rest => containsCrlf rest
  | [] => false

/-- Keep at most so many line breaks; what stands before the first one and after the last one stays. -/
def keepMaximumBreaks
    (breaks : Nat)
    (whitespace : Text) : Text :=
  if whitespace.count '\n' ≤ breaks then whitespace
  else
    let newLine := if containsCrlf whitespace then ['\r', '\n'] else ['\n']
    whitespace.takeWhile (fun char => !isBreak char) ++
      (List.replicate breaks newLine).flatten ++ Text.afterLast '\n' whitespace

/-- Keep at most so many blank lines, which is one line break more. -/
def keepMaximumBlankLines
    (keep : Nat)
    (whitespace : Text) : Except Error Text := do
  return keepMaximumBreaks (<- addWords keep 1) whitespace

/-- Drop everything but line breaks before the last line break. -/
def stripTrailing (whitespace : Text) : Text :=
  match Text.splitLast? '\n' whitespace with
  | some (head, tail) => onlyLineBreaks head ++ tail
  | none => whitespace

/-- Make every line feed, with or without a carriage return before it, the same line break. -/
def normalizeNewLines
    (useCrlf : Bool)
    (text : Text) : Text :=
  let plain := Text.replace ['\r', '\n'] ['\n'] text
  if useCrlf then Text.replaceChar '\n' ['\r', '\n'] plain else plain

end Format
end Lossless
