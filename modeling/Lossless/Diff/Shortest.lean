

/-!
# Few changes between two lists

A list of changes describes two lists at once: elements that both have, and elements that only the first or
only the second has. `oldSide` and `newSide` read them off.

It is a way through a grid, from the top left to the bottom right corner: a step to the right
deletes an element of the first list, a step down inserts one of the second list, and a diagonal step keeps
one of both. Ways are followed from both corners at once, with one more change in every round, until two of
them meet; the lists are cut there, and both halves are compared in the same manner.
-/

namespace Lossless
namespace Diff

/-! ## Changes -/

/-- A run of elements of two lists. -/
inductive Change (α : Type)
  /-- Elements of both lists. -/
  | kept (items : List α)
  /-- Elements of the first list. -/
  | deleted (items : List α)
  /-- Elements of the second list. -/
  | inserted (items : List α)
  deriving DecidableEq

namespace Change

/-- What the first list has. -/
def old : Change α -> List α
  | kept items => items
  | deleted items => items
  | inserted _ => []

/-- What the second list has. -/
def new : Change α -> List α
  | kept items => items
  | deleted _ => []
  | inserted items => items

/-- The elements are only in the second list. -/
def isInserted : Change α -> Bool
  | inserted _ => true
  | _ => false

end Change

/-- The first list. -/
def oldSide (changes : List (Change α)) : List α :=
  changes.flatMap Change.old

/-- The second list. -/
def newSide (changes : List (Change α)) : List α :=
  changes.flatMap Change.new

@[simp] theorem oldSide_nil : oldSide ([] : List (Change α)) = [] := rfl

@[simp] theorem newSide_nil : newSide ([] : List (Change α)) = [] := rfl

@[simp] theorem oldSide_cons
    (change : Change α)
    (rest : List (Change α)) :
    oldSide (change :: rest) = change.old ++ oldSide rest := by
  simp [oldSide]

@[simp] theorem newSide_cons
    (change : Change α)
    (rest : List (Change α)) :
    newSide (change :: rest) = change.new ++ newSide rest := by
  simp [newSide]

@[simp] theorem oldSide_append (left right : List (Change α)) :
    oldSide (left ++ right) = oldSide left ++ oldSide right := by
  simp [oldSide]

@[simp] theorem newSide_append (left right : List (Change α)) :
    newSide (left ++ right) = newSide left ++ newSide right := by
  simp [newSide]

/-- Kept elements as changes. -/
def keep (items : List α) : List (Change α) :=
  if items.isEmpty then [] else [.kept items]

/-- The changes from one list to another when nothing is kept. -/
def replace (old new : List α) : List (Change α) :=
  (if old.isEmpty then [] else [.deleted old]) ++ (if new.isEmpty then [] else [.inserted new])

@[simp] theorem oldSide_keep (items : List α) : oldSide (keep items) = items := by
  cases items <;> simp [keep, Change.old]

@[simp] theorem newSide_keep (items : List α) : newSide (keep items) = items := by
  cases items <;> simp [keep, Change.new]

@[simp] theorem oldSide_replace (old new : List α) : oldSide (replace old new) = old := by
  cases old <;> cases new <;> simp [replace, Change.old]

@[simp] theorem newSide_replace (old new : List α) : newSide (replace old new) = new := by
  cases old <;> cases new <;> simp [replace, Change.new]

/-! ## Ways through the grid -/

variable {α : Type} [DecidableEq α]

/-- The number of elements that two lists start with in common. -/
def commonLength : List α -> List α -> Nat
  | left :: lefts, right :: rights => if left = right then commonLength lefts rights + 1 else 0
  | _, _ => 0

/-- The number of elements that two lists end with in common. -/
def commonEndLength (left right : List α) : Nat :=
  commonLength left.reverse right.reverse

theorem take_commonLength (left right : List α) :
    left.take (commonLength left right) = right.take (commonLength left right) := by
  induction left generalizing right with
  | nil => simp [commonLength]
  | cons first rest ih =>
      cases right with
      | nil => simp [commonLength]
      | cons other others =>
          by_cases same : first = other
          · simp [commonLength, same, ih]
          · simp [commonLength, same]

theorem drop_commonEndLength (left right : List α) :
    left.drop (left.length - commonEndLength left right) =
      right.drop (right.length - commonEndLength left right) := by
  have reversed := take_commonLength left.reverse right.reverse
  rw [List.take_reverse, List.take_reverse] at reversed
  exact List.reverse_inj.1 reversed

/-- A diagonal run: the diagonal counts deleted less inserted elements; the run starts and ends after so many
elements of the first list. -/
structure Run where
  diagonal : Int
  start : Nat
  stop : Nat

/-- The place in the second list that is on a diagonal with a place in the first one. -/
def across
    (place : Nat)
    (diagonal : Int) : Nat :=
  (place - diagonal).toNat

/-- The places to go on from on the next diagonals below one that was reached: the one that was reached from
above, unless deleting an element goes further. -/
def startsBelow : Nat -> List Nat -> List Nat
  | above, [] => [above]
  | above, below :: rest => (if below < above then above else below + 1) :: startsBelow below rest

/-- The places to go on from, the highest diagonal first, after the ends of the ways with one change less. -/
def starts : List Nat -> List Nat
  | [] => [0]
  | first :: rest => (first + 1) :: startsBelow first rest

/-- The runs at the ends of the ways with one change more. -/
def advance
    (old new : List α)
    (front : List Run) : List Run :=
  (starts (front.map Run.stop)).zipIdx.map fun (start, index) =>
    let diagonal : Int := front.length - 2 * index
    ⟨diagonal, start, start + commonLength (old.drop start) (new.drop (across start diagonal))⟩

/-- The first run that meets one from the other corner, when the way has some length and the last diagonal
is known. -/
def meeting?
    (length : Nat)
    (last : Int)
    (front other : List Run) : Option Run :=
  front.find? fun run =>
    other.any fun opposite => opposite.diagonal = last - run.diagonal && length ≤ run.stop + opposite.stop

/-- Where to cut both lists, with so many more rounds; the ways so far have ends at `front` and, from the
other corner, at `back`. -/
def cut?
    (old new : List α) : Nat -> List Run -> List Run -> Option (Nat × Nat)
  | 0, _, _ => none
  | rounds + 1, front, back =>
      let last : Int := old.length - new.length
      let front := advance old new front
      match meeting? old.length last front back with
      | some run => some (run.start, across run.start run.diagonal)
      | none =>
          let back := advance old.reverse new.reverse back
          match meeting? old.length last back front with
          | some run => some (old.length - run.stop, new.length - across run.stop run.diagonal)
          | none => cut? old new rounds front back

/-- The changes between two lists, cut not more than so many times. -/
def changesWithin : Nat -> List α -> List α -> List (Change α)
  | 0, old, new => replace old new
  | bound + 1, old, new =>
      let start := commonLength old new
      let oldRest := old.drop start
      let newRest := new.drop start
      let shared := commonEndLength oldRest newRest
      let oldMiddle := oldRest.take (oldRest.length - shared)
      let newMiddle := newRest.take (newRest.length - shared)
      let middle :=
        if oldMiddle.isEmpty || newMiddle.isEmpty then replace oldMiddle newMiddle
        else
          match cut? oldMiddle newMiddle ((oldMiddle.length + newMiddle.length + 1) / 2 + 1) [] [] with
          | some (oldPlace, newPlace) =>
              changesWithin bound (oldMiddle.take oldPlace) (newMiddle.take newPlace) ++
                changesWithin bound (oldMiddle.drop oldPlace) (newMiddle.drop newPlace)
          | none => replace oldMiddle newMiddle
      keep (old.take start) ++ middle ++ keep (oldRest.drop (oldRest.length - shared))

/-- The changes between two lists. -/
def changes (old new : List α) : List (Change α) :=
  changesWithin (old.length + new.length + 1) old new

theorem oldSide_changesWithin
    (bound : Nat)
    (old new : List α) :
    oldSide (changesWithin bound old new) = old := by
  induction bound generalizing old new with
  | zero => simp [changesWithin]
  | succ bound ih =>
      have middle : ∀ left right : List α,
          oldSide
              (if left.isEmpty || right.isEmpty then replace left right
                else
                  match cut? left right ((left.length + right.length + 1) / 2 + 1) [] [] with
                  | some (leftPlace, rightPlace) =>
                      changesWithin bound (left.take leftPlace) (right.take rightPlace) ++
                        changesWithin bound (left.drop leftPlace) (right.drop rightPlace)
                  | none => replace left right) =
            left := by
        intro left right
        split
        · simp
        · split <;> simp [ih]
      simp only [changesWithin, oldSide_append, oldSide_keep, middle]
      rw [List.append_assoc, List.take_append_drop, List.take_append_drop]

theorem newSide_changesWithin
    (bound : Nat)
    (old new : List α) :
    newSide (changesWithin bound old new) = new := by
  induction bound generalizing old new with
  | zero => simp [changesWithin]
  | succ bound ih =>
      have middle : ∀ left right : List α,
          newSide
              (if left.isEmpty || right.isEmpty then replace left right
                else
                  match cut? left right ((left.length + right.length + 1) / 2 + 1) [] [] with
                  | some (leftPlace, rightPlace) =>
                      changesWithin bound (left.take leftPlace) (right.take rightPlace) ++
                        changesWithin bound (left.drop leftPlace) (right.drop rightPlace)
                  | none => replace left right) =
            right := by
        intro left right
        split
        · simp
        · split <;> simp [ih]
      simp only [changesWithin, newSide_append, newSide_keep, middle]
      rw [take_commonLength, drop_commonEndLength, List.append_assoc, List.take_append_drop,
        List.take_append_drop]

/-- The changes start from the first list. -/
@[simp] theorem oldSide_changes (old new : List α) : oldSide (changes old new) = old :=
  oldSide_changesWithin _ _ _

/-- The changes lead to the second list. -/
@[simp] theorem newSide_changes (old new : List α) : newSide (changes old new) = new :=
  newSide_changesWithin _ _ _

end Diff
end Lossless
