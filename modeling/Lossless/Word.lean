import Lossless.Error

/-!
# Machine words

Columns and limits are machine words. A sum that does not fit is a failure of its own: no step goes on from it,
and it ends the program.
-/

namespace Lossless

/-- The number of values of a machine word. -/
def wordSize : Nat := Nat.pow 2 64

/-- The sum of two words. -/
def addWords (left right : Nat) : Except Error Nat :=
  if left + right < wordSize then .ok (left + right) else .error (.ofCause .overflow)

/-- The outcome is that of a sum that does not fit. -/
def overflows : Except Error α -> Bool
  | .ok _ => false
  | .error error => error.cause = .overflow

@[simp] theorem overflows_ok (value : α) : overflows (.ok value) = false := rfl

theorem addWords_of_fits
    {left right : Nat}
    (fits : left + right < wordSize) :
    addWords left right = .ok (left + right) :=
  if_pos fits

theorem overflows_addWords_iff {left right : Nat} :
    overflows (addWords left right) = true ↔ wordSize ≤ left + right := by
  unfold addWords
  split
  · simpa using ‹left + right < wordSize›
  · simpa [overflows, Error.ofCause] using ‹¬left + right < wordSize›

end Lossless
