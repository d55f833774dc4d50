import Lossless.Diff.Shortest

/-!
# Sliding changes together

When an inserted run ends with the elements before it, it can be read as inserted further up; when it starts
with the elements after it, as inserted further down. Every inserted run slides up as far as it can and then
down as far as it can, passes what is deleted and joins the inserted runs that it meets. Neither side of the
changes is altered.
-/

namespace Lossless
namespace Diff

/-- Put kept elements in front of changes. -/
def keepFirst
    (items : List α)
    (changes : List (Change α)) : List (Change α) :=
  match changes with
  | .kept more :: rest => .kept (items ++ more) :: rest
  | _ => keep items ++ changes

@[simp] theorem oldSide_keepFirst
    (items : List α)
    (changes : List (Change α)) :
    oldSide (keepFirst items changes) = items ++ oldSide changes := by
  unfold keepFirst
  split <;> simp [Change.old]

@[simp] theorem newSide_keepFirst
    (items : List α)
    (changes : List (Change α)) :
    newSide (keepFirst items changes) = items ++ newSide changes := by
  unfold keepFirst
  split <;> simp [Change.new]

/-! ## Order between kept elements -/

/-- Between kept elements, what is deleted comes as one run after what is inserted; something to be deleted
may be pending. -/
def deletedLast (pending : List α) : List (Change α) -> List (Change α)
  | [] => replace pending []
  | .kept items :: rest => replace pending [] ++ .kept items :: deletedLast [] rest
  | .deleted items :: rest => deletedLast (pending ++ items) rest
  | .inserted items :: rest => .inserted items :: deletedLast pending rest

theorem oldSide_deletedLast
    (pending : List α)
    (changes : List (Change α)) :
    oldSide (deletedLast pending changes) = pending ++ oldSide changes := by
  fun_induction deletedLast pending changes <;> simp_all [Change.old]

theorem newSide_deletedLast
    (pending : List α)
    (changes : List (Change α)) :
    newSide (deletedLast pending changes) = newSide changes := by
  fun_induction deletedLast pending changes <;> simp_all [Change.new]

/-- Between kept elements, one deleted run and one inserted run, and no two kept runs in a row; something may
be pending. -/
def joinFrom (deleted inserted : List α) : List (Change α) -> List (Change α)
  | [] => replace deleted inserted
  | .kept items :: rest => replace deleted inserted ++ keepFirst items (joinFrom [] [] rest)
  | .deleted items :: rest => joinFrom (deleted ++ items) inserted rest
  | .inserted items :: rest => joinFrom deleted (inserted ++ items) rest

theorem oldSide_joinFrom
    (deleted inserted : List α)
    (changes : List (Change α)) :
    oldSide (joinFrom deleted inserted changes) = deleted ++ oldSide changes := by
  fun_induction joinFrom deleted inserted changes <;> simp_all [Change.old]

theorem newSide_joinFrom
    (deleted inserted : List α)
    (changes : List (Change α)) :
    newSide (joinFrom deleted inserted changes) = inserted ++ newSide changes := by
  fun_induction joinFrom deleted inserted changes <;> simp_all [Change.new]

/-! ## Sliding an inserted run -/

/-- An inserted run between other changes; those before it stand with the nearest one first. -/
structure Focus (α : Type) where
  before : List (Change α)
  items : List α
  after : List (Change α)

/-- The changes from the first one on. -/
def Focus.changes (focus : Focus α) : List (Change α) :=
  focus.before.reverse ++ .inserted focus.items :: focus.after

/-- The room to slide in: the number of changes and of their elements. -/
def room : List (Change α) -> Nat
  | [] => 0
  | .kept items :: rest => items.length + 1 + room rest
  | _ :: rest => 1 + room rest

theorem room_keep_append_le
    (items : List α)
    (rest : List (Change α)) :
    room (keep items ++ rest) ≤ items.length + 1 + room rest := by
  unfold keep
  split <;> simp [room]

variable [DecidableEq α]

theorem commonLength_le_left (left right : List α) : commonLength left right ≤ left.length := by
  fun_induction commonLength left right <;> simp_all

theorem commonEndLength_le_left (left right : List α) : commonEndLength left right ≤ left.length := by
  simpa [commonEndLength] using commonLength_le_left left.reverse right.reverse

/-- Slide an inserted run up. -/
def slideUp
    (before : List (Change α))
    (items : List α)
    (after : List (Change α)) : Focus α :=
  match before with
  | [] => ⟨[], items, after⟩
  | .deleted deleted :: rest => slideUp rest items (.deleted deleted :: after)
  | .inserted more :: rest => slideUp rest (more ++ items) after
  | .kept kept :: rest =>
      let shared := commonEndLength kept items
      if shared = 0 then ⟨.kept kept :: rest, items, after⟩
      else
        let above := kept.take (kept.length - shared)
        let passed := kept.drop (kept.length - shared)
        slideUp (keep above ++ rest) (passed ++ items.take (items.length - shared)) (keepFirst passed after)
  termination_by room before
  decreasing_by
    · simp [room]
    · simp [room]
    · have bound := room_keep_append_le (kept.take (kept.length - commonEndLength kept items)) rest
      have fits := commonEndLength_le_left kept items
      simp only [List.length_take] at bound
      simp only [room]
      omega

/-- Put kept elements behind changes that stand with the nearest one first. -/
def keepNearest
    (items : List α)
    (before : List (Change α)) : List (Change α) :=
  match before with
  | .kept more :: rest => .kept (more ++ items) :: rest
  | _ => .kept items :: before

/-- Slide an inserted run down. -/
def slideDown
    (before : List (Change α))
    (items : List α)
    (after : List (Change α)) : Focus α :=
  match after with
  | [] => ⟨before, items, []⟩
  | .deleted deleted :: rest => slideDown (.deleted deleted :: before) items rest
  | .inserted more :: rest => slideDown before (items ++ more) rest
  | .kept kept :: rest =>
      let shared := commonLength kept items
      if shared = 0 then ⟨before, items, .kept kept :: rest⟩
      else
        let passed := kept.take shared
        let below := kept.drop shared
        slideDown (keepNearest passed before) (items.drop shared ++ passed) (keep below ++ rest)
  termination_by room after
  decreasing_by
    · simp [room]
    · simp [room]
    · have bound := room_keep_append_le (kept.drop (commonLength kept items)) rest
      have fits := commonLength_le_left kept items
      simp only [List.length_drop] at bound
      simp only [room]
      omega

/-- Slide the inserted runs of some changes, not more than so many; the changes before them stand with the
nearest one first. -/
def slideRuns : Nat -> List (Change α) -> List (Change α) -> List (Change α)
  | 0, before, after => before.reverse ++ after
  | bound + 1, before, after =>
      let passed := after.takeWhile fun change => !change.isInserted
      match after.dropWhile fun change => !change.isInserted with
      | .inserted items :: rest =>
          let up := slideUp (passed.reverse ++ before) items rest
          let down := slideDown up.before up.items up.after
          slideRuns bound (.inserted down.items :: down.before) down.after
      | _ => before.reverse ++ after

/-- The changes with every inserted run at its place, and what lies between kept elements joined. -/
def compact (changes : List (Change α)) : List (Change α) :=
  joinFrom [] [] (slideRuns changes.length [] (deletedLast [] changes))

/-! ## Both sides stay -/

omit [DecidableEq α] in
theorem reverse_keep (items : List α) : (keep items).reverse = keep items := by
  cases items <;> simp [keep]

omit [DecidableEq α] in
theorem oldSide_keepNearest
    (items : List α)
    (before : List (Change α)) :
    oldSide (keepNearest items before).reverse = oldSide before.reverse ++ items := by
  unfold keepNearest
  split <;> simp [Change.old]

omit [DecidableEq α] in
theorem newSide_keepNearest
    (items : List α)
    (before : List (Change α)) :
    newSide (keepNearest items before).reverse = newSide before.reverse ++ items := by
  unfold keepNearest
  split <;> simp [Change.new]

theorem oldSide_slideUp
    (before : List (Change α))
    (items : List α)
    (after : List (Change α)) :
    oldSide (slideUp before items after).changes = oldSide before.reverse ++ oldSide after := by
  fun_induction slideUp before items after with
  | case1 => simp [Focus.changes, Change.old]
  | case2 items after deleted rest ih => simp [ih, Change.old]
  | case3 items after more rest ih => simp [ih, Change.old]
  | case4 items after kept rest shared stuck => simp [Focus.changes, Change.old]
  | case5 items after kept rest shared moves above passed ih =>
      have whole : above ++ passed = kept := List.take_append_drop _ _
      simp [ih, Change.old, reverse_keep, ← whole]

theorem newSide_slideUp
    (before : List (Change α))
    (items : List α)
    (after : List (Change α)) :
    newSide (slideUp before items after).changes =
      newSide before.reverse ++ items ++ newSide after := by
  fun_induction slideUp before items after with
  | case1 => simp [Focus.changes, Change.new]
  | case2 items after deleted rest ih => simp [ih, Change.new]
  | case3 items after more rest ih => simp [ih, Change.new]
  | case4 items after kept rest shared stuck => simp [Focus.changes, Change.new]
  | case5 items after kept rest shared moves above passed ih =>
      have whole : above ++ passed = kept := List.take_append_drop _ _
      have same : passed = items.drop (items.length - shared) := drop_commonEndLength kept items
      have parts : items.take (items.length - shared) ++ passed = items := by
        rw [same]
        exact List.take_append_drop _ _
      have tail : items.take (items.length - shared) ++ (passed ++ newSide after) =
          items ++ newSide after := by
        rw [← List.append_assoc, parts]
      simp [ih, Change.new, reverse_keep, ← whole, tail]

theorem oldSide_slideDown
    (before : List (Change α))
    (items : List α)
    (after : List (Change α)) :
    oldSide (slideDown before items after).changes = oldSide before.reverse ++ oldSide after := by
  fun_induction slideDown before items after with
  | case1 => simp [Focus.changes, Change.old]
  | case2 before items deleted rest ih => simp [ih, Change.old]
  | case3 before items more rest ih => simp [ih, Change.old]
  | case4 before items kept rest shared stuck => simp [Focus.changes, Change.old]
  | case5 before items kept rest shared moves passed below ih =>
      have whole : passed ++ below = kept := List.take_append_drop _ _
      simp [ih, Change.old, oldSide_keepNearest, ← whole]

theorem newSide_slideDown
    (before : List (Change α))
    (items : List α)
    (after : List (Change α)) :
    newSide (slideDown before items after).changes =
      newSide before.reverse ++ items ++ newSide after := by
  fun_induction slideDown before items after with
  | case1 => simp [Focus.changes, Change.new]
  | case2 before items deleted rest ih => simp [ih, Change.new]
  | case3 before items more rest ih => simp [ih, Change.new]
  | case4 before items kept rest shared stuck => simp [Focus.changes, Change.new]
  | case5 before items kept rest shared moves passed below ih =>
      have whole : passed ++ below = kept := List.take_append_drop _ _
      have same : passed = items.take shared := take_commonLength kept items
      have parts : passed ++ items.drop shared = items := by
        rw [same]
        exact List.take_append_drop _ _
      have head : passed ++ (items.drop shared ++ (passed ++ (below ++ newSide rest))) =
          items ++ (passed ++ (below ++ newSide rest)) := by
        rw [← List.append_assoc, parts]
      simp [ih, Change.new, newSide_keepNearest, ← whole, head]

theorem oldSide_slideRuns
    (bound : Nat)
    (before after : List (Change α)) :
    oldSide (slideRuns bound before after) = oldSide before.reverse ++ oldSide after := by
  fun_induction slideRuns bound before after with
  | case1 => simp
  | case2 bound before after passed items rest found up down ih =>
      have whole : passed ++ .inserted items :: rest = after := by
        rw [← found]
        exact List.takeWhile_append_dropWhile
      have moved : oldSide down.changes = oldSide up.before.reverse ++ oldSide up.after :=
        oldSide_slideDown _ _ _
      have start : oldSide up.changes = oldSide (passed.reverse ++ before).reverse ++ oldSide rest :=
        oldSide_slideUp _ _ _
      simp only [Focus.changes, oldSide_append, oldSide_cons, Change.old, List.nil_append] at moved start
      simp [ih, Change.old, moved, start, ← whole]
  | case3 => simp

theorem newSide_slideRuns
    (bound : Nat)
    (before after : List (Change α)) :
    newSide (slideRuns bound before after) = newSide before.reverse ++ newSide after := by
  fun_induction slideRuns bound before after with
  | case1 => simp
  | case2 bound before after passed items rest found up down ih =>
      have whole : passed ++ .inserted items :: rest = after := by
        rw [← found]
        exact List.takeWhile_append_dropWhile
      have moved : newSide down.changes = newSide up.before.reverse ++ up.items ++ newSide up.after :=
        newSide_slideDown _ _ _
      have start :
          newSide up.changes = newSide (passed.reverse ++ before).reverse ++ items ++ newSide rest :=
        newSide_slideUp _ _ _
      simp only [Focus.changes, newSide_append, newSide_cons, Change.new, List.append_assoc] at moved start
      simp [ih, Change.new, moved, start, ← whole]
  | case3 => simp

/-- Compact changes start from the same list. -/
@[simp] theorem oldSide_compact (changes : List (Change α)) :
    oldSide (compact changes) = oldSide changes := by
  simp [compact, oldSide_joinFrom, oldSide_slideRuns, oldSide_deletedLast]

/-- Compact changes lead to the same list. -/
@[simp] theorem newSide_compact (changes : List (Change α)) :
    newSide (compact changes) = newSide changes := by
  simp [compact, newSide_joinFrom, newSide_slideRuns, newSide_deletedLast]

end Diff
end Lossless
