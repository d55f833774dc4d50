import Lossless.Text.Basic

/-!
# Patterns of paths

A pattern is a text in which `?` stands for any character, `*` for any run of characters, separators
included, `[…]` for one character of some ranges, `[!…]` for one outside of them, and `**` as a whole
component for any number of directories.
-/

namespace Lossless
namespace Files

/-- What a position of a pattern stands for. -/
inductive Token
  | char (char : Char)
  | anyChar
  | oneOf (ranges : List (Char × Char))
  | noneOf (ranges : List (Char × Char))
  /-- Any run of characters. -/
  | run
  /-- Any number of directories; at the end of a pattern, anything. -/
  | directories
  deriving DecidableEq

/-- A pattern as the list of its tokens. -/
abbrev Pattern := List Token

namespace Pattern

/-! ## Reading -/

/-- The ranges between brackets. -/
def rangesOf : Text -> List (Char × Char)
  | first :: '-' :: last :: rest => (first, last) :: rangesOf rest
  | first :: rest => (first, first) :: rangesOf rest
  | [] => []

/-- The text between brackets, after the opening one, and what follows; the first character is no bracket. -/
def splitBrackets? : Text -> Option (Text × Text)
  | [] => none
  | first :: rest =>
      let inside := rest.takeWhile fun char => char ≠ ']'
      match rest.drop inside.length with
      | [] => none
      | _ :: after => some (first :: inside, after)

/-- Read the rest of a pattern after a character; the bound is on its length. -/
def tokensFrom? : Nat -> Option Char -> Text -> Option Pattern
  | _, _, [] => some []
  | 0, _, _ :: _ => none
  | bound + 1, before, first :: rest =>
      match first, rest with
      | '?', _ => (tokensFrom? bound (some '?') rest).map (.anyChar :: ·)
      | '*', '*' :: '*' :: _ => none
      | '*', '*' :: '/' :: after =>
          if before.all (· = '/') then (tokensFrom? bound (some '/') after).map (.directories :: ·)
          else none
      | '*', '*' :: after =>
          if before.all (· = '/') && after.isEmpty then some [.directories] else none
      | '*', _ => (tokensFrom? bound (some '*') rest).map (.run :: ·)
      | '[', '!' :: inside => do
          let (inside, after) <- splitBrackets? inside
          return .noneOf (rangesOf inside) :: (<- tokensFrom? bound (some ']') after)
      | '[', inside => do
          let (inside, after) <- splitBrackets? inside
          return .oneOf (rangesOf inside) :: (<- tokensFrom? bound (some ']') after)
      | first, _ => (tokensFrom? bound (some first) rest).map (.char first :: ·)

/-- Read a pattern. -/
def ofText? (text : Text) : Option Pattern :=
  tokensFrom? (text.length + 1) none text

/-! ## Matching -/

/-- A character is in one of some ranges. -/
def isInRanges
    (ranges : List (Char × Char))
    (char : Char) : Bool :=
  ranges.any fun (first, last) => first ≤ char && char ≤ last

/-- A token that stands for one character stands for this one. -/
def accepts (char : Char) : Token -> Bool
  | .char wanted => char = wanted
  | .anyChar => true
  | .oneOf ranges => isInRanges ranges char
  | .noneOf ranges => !isInRanges ranges char
  | .run => false
  | .directories => false

/-- Some end of a text has a property, the whole text and the empty one included. -/
def anyEnd (test : Text -> Bool) : Text -> Bool
  | [] => test []
  | first :: rest => test (first :: rest) || anyEnd test rest

/-- Some end of a text after a separator has a property, or the empty one. -/
def anyEndBelow (test : Text -> Bool) : Text -> Bool
  | [] => test []
  | first :: rest => (first = '/' && test rest) || anyEndBelow test rest

/-- The whole of a text is what a pattern stands for. -/
def isMatch : Pattern -> Text -> Bool
  | [], text => text.isEmpty
  | .run :: rest, text => anyEnd (isMatch rest) text
  | .directories :: rest, text => isMatch rest text || anyEndBelow (isMatch rest) text
  | _ :: _, [] => false
  | token :: rest, char :: text => accepts char token && isMatch rest text

end Pattern
end Files
end Lossless
