/-!
# Text as a list of characters

Sources, whitespace runs, names and printed trees are lists of characters. The operations here cut a
text at a character, count its UTF-8 bytes, and replace a pattern; each is a structural recursion, so
it unfolds under evaluation. The laws beside them say that cutting loses nothing.
-/

namespace Lossless

/-- A piece of source text. -/
abbrev Text := List Char

namespace Text

/-- Number of bytes of the UTF-8 encoding. -/
def byteLength : Text -> Nat
  | [] => 0
  | first :: rest => first.utf8Size + byteLength rest

@[simp] theorem byteLength_nil : byteLength [] = 0 := rfl

@[simp] theorem byteLength_cons
    (first : Char)
    (rest : Text) :
    byteLength (first :: rest) = first.utf8Size + byteLength rest := rfl

@[simp] theorem byteLength_append
    (left right : Text) :
    byteLength (left ++ right) = byteLength left + byteLength right := by
  induction left with
  | nil => simp
  | cons first rest ih => simp [ih, Nat.add_assoc]

/-- What follows `pattern` when the text starts with it. -/
def dropStart? : (pattern : Text) -> Text -> Option Text
  | [], text => some text
  | _ :: _, [] => none
  | wanted :: pattern, first :: rest =>
      if wanted = first then dropStart? pattern rest else none

theorem eq_append_of_dropStart?
    {pattern text rest : Text}
    (found : dropStart? pattern text = some rest) :
    text = pattern ++ rest := by
  induction pattern generalizing text with
  | nil => simpa [dropStart?] using found
  | cons wanted pattern ih =>
      cases text with
      | nil => simp [dropStart?] at found
      | cons first tail =>
          by_cases same : wanted = first
          · subst same
            simp only [dropStart?, if_true] at found
            simpa using ih found
          · simp [dropStart?, same] at found

@[simp] theorem dropStart?_append
    (pattern rest : Text) :
    dropStart? pattern (pattern ++ rest) = some rest := by
  induction pattern with
  | nil => rfl
  | cons wanted pattern ih => simpa [dropStart?] using ih

/-- The text up to and including the last `mark`, and the text after it. -/
def splitLast? (mark : Char) : Text -> Option (Text × Text)
  | [] => none
  | first :: rest =>
      match splitLast? mark rest with
      | some (head, tail) => some (first :: head, tail)
      | none => if first = mark then some ([mark], rest) else none

/-- The text after the last `mark`, or the whole text when there is none. -/
def afterLast (mark : Char) (text : Text) : Text :=
  match splitLast? mark text with
  | some (_, tail) => tail
  | none => text

/-- The pieces between the occurrences of `mark`; there is always at least one. -/
def splitAt (mark : Char) : Text -> List Text
  | [] => [[]]
  | first :: rest =>
      if first = mark then
        [] :: splitAt mark rest
      else
        match splitAt mark rest with
        | [] => [[first]]
        | piece :: pieces => (first :: piece) :: pieces

@[simp] theorem splitAt_nil (mark : Char) : splitAt mark [] = [[]] := rfl

theorem splitAt_ne_nil
    (mark : Char)
    (text : Text) :
    splitAt mark text ≠ [] := by
  cases text with
  | nil => simp
  | cons first rest =>
      by_cases same : first = mark
      · simp [splitAt, same]
      · simp only [splitAt, same, if_false]
        split <;> simp

/--
Replace the occurrences of `pattern`, found from left to right without overlap. The counter is how many
characters of an occurrence are still to be passed over.
-/
def replaceFrom (pattern replacement : Text) : Nat -> Text -> Text
  | _, [] => []
  | skip + 1, _ :: rest => replaceFrom pattern replacement skip rest
  | 0, first :: rest =>
      match dropStart? pattern (first :: rest) with
      | some _ => replacement ++ replaceFrom pattern replacement (pattern.length - 1) rest
      | none => first :: replaceFrom pattern replacement 0 rest

/-- Replace every occurrence of a nonempty `pattern`, from left to right. -/
def replace (pattern replacement text : Text) : Text :=
  replaceFrom pattern replacement 0 text

/-- Replace every occurrence of one character. -/
def replaceChar (mark : Char) (replacement : Text) (text : Text) : Text :=
  text.flatMap fun first => if first = mark then replacement else [first]

@[simp] theorem replaceChar_nil
    (mark : Char)
    (replacement : Text) :
    replaceChar mark replacement [] = [] := rfl

@[simp] theorem replaceChar_append
    (mark : Char)
    (replacement left right : Text) :
    replaceChar mark replacement (left ++ right) =
      replaceChar mark replacement left ++ replaceChar mark replacement right := by
  simp [replaceChar]

/-- Line of the position after `before`, counted from one. -/
def lineOf (before : Text) : Nat :=
  before.count '\n' + 1

/-- Column of the position after `before` in characters, counted from zero. -/
def columnOf (before : Text) : Nat :=
  (afterLast '\n' before).length

end Text
end Lossless
