import Lossless.Proofs.Format.Fixpoint.Space
import Lossless.Proofs.Format.Standing

/-!
# Spaces in a column

Moving a space to a column keeps its line breaks, and what follows the last one is then indented by that column.
Moving the space to the same column once more changes nothing: the texts that stand on the lines are in the column
already, so that no comment is moved any more.
-/

namespace Lossless
namespace Format

open Text

variable {style : IndentStyle} {column : Nat}

/-! ## Whitespace -/

theorem afterLast_shiftWhitespace
    {text : Text}
    (feed : '\n' ∈ text) :
    afterLast '\n' (shiftWhitespace style column text) = indentString style column := by
  obtain ⟨lines, last, has⟩ := exists_hasLines text
  cases lines with
  | nil => exact absurd rfl (has.mem_iff.1 feed)
  | cons first rest => exact (hasLines_shiftWhitespace style column has).afterLast_eq

theorem indentWidth_shiftWhitespace
    {text : Text}
    (feed : '\n' ∈ text) :
    Exact.indentWidth style.tabSize (shiftWhitespace style column text) = column := by
  obtain ⟨lines, last, has⟩ := exists_hasLines text
  cases lines with
  | nil => exact absurd rfl (has.mem_iff.1 feed)
  | cons first rest =>
      rw [indentWidth_of_hasLines (hasLines_shiftWhitespace style column has), indentWidth_indentString]

theorem contains_shiftWhitespace (text : Text) :
    (shiftWhitespace style column text).contains '\n' = text.contains '\n' :=
  contains_eq_of_count (count_shiftWhitespace column text)

theorem shiftWhitespace_shiftWhitespace (text : Text) :
    shiftWhitespace style column (shiftWhitespace style column text) = shiftWhitespace style column text := by
  obtain ⟨lines, last, has⟩ := exists_hasLines text
  cases lines with
  | nil =>
      have noFeed : '\n' ∉ text := fun feed => has.mem_iff.1 feed rfl
      rw [shiftWhitespace_of_notMem style column noFeed, shiftWhitespace_of_notMem style column noFeed]
  | cons first rest =>
      have once := hasLines_shiftWhitespace style column has
      have twice := hasLines_shiftWhitespace style column once
      rw [twice.eq, once.eq]
      split <;> simp

/-! ## Comments -/

theorem contains_movedBefore
    (leading : Text)
    (comment : Comment) :
    (movedBefore style column leading comment).contains '\n' = leading.contains '\n' :=
  contains_eq_of_count (count_movedBefore leading comment)

/-- Whitespace before a comment, once it has been moved, stays. -/
theorem movedBefore_movedBefore
    {comment changed : Comment}
    (same : changed.isBlock = comment.isBlock)
    (leading : Text) :
    movedBefore style column (movedBefore style column leading comment) changed =
      movedBefore style column leading comment := by
  cases moves : movesTo style leading comment with
  | true =>
      rw [movedBefore, movedBefore, if_pos moves]
      split
      · exact shiftWhitespace_shiftWhitespace leading
      · rfl
  | false =>
      have stays : movesTo style leading changed = false := by
        rw [← moves, movesTo, movesTo, same]
      have here : movedBefore style column leading comment = leading := by
        rw [movedBefore, moves, if_neg (by simp)]
      rw [here, movedBefore, stays, if_neg (by simp)]

/-- The text of a comment that starts a line in its column stays. -/
theorem movedText_movedBefore
    {leading : Text}
    {comment changed : Comment}
    (same : changed.isBlock = comment.isBlock) :
    movedText style column (movedBefore style column leading comment) changed = changed.text := by
  rw [movedText, same, contains_movedBefore]
  cases starts : comment.isBlock && leading.contains '\n' with
  | false => rfl
  | true =>
      obtain ⟨isBlock, feed⟩ := Bool.and_eq_true_iff.1 starts
      have moves : movesTo style leading comment = true := by
        rw [movesTo, feed, isBlock, Bool.not_true, Bool.and_false]
        rfl
      have inColumn : Exact.indentWidth style.tabSize (movedBefore style column leading comment) = column := by
        rw [movedBefore, if_pos moves]
        exact indentWidth_shiftWhitespace (List.contains_iff_mem.1 feed)
      rw [if_pos rfl, inColumn, shiftCommentBody, if_pos rfl]

/-- Comments and whitespace, once they are in a column, stay. -/
theorem indentComments_indentComments
    (leading : Text)
    (comments : List Comment) :
    let moved := Exact.indentComments style column leading comments
    Exact.indentComments style column moved.1 moved.2 = moved := by
  induction comments generalizing leading with
  | nil => exact Prod.ext (shiftWhitespace_shiftWhitespace leading) rfl
  | cons first rest ih =>
      have others := ih first.suffix
      rw [indentComments_cons]
      generalize Exact.indentComments style column first.suffix rest = below at others
      let changed : Comment := { first with text := movedText style column leading first, suffix := below.1 }
      have leadingStays : movedBefore style column (movedBefore style column leading first) changed = _ :=
        movedBefore_movedBefore rfl leading
      have textStays : movedText style column (movedBefore style column leading first) changed = changed.text :=
        movedText_movedBefore rfl
      dsimp only at others ⊢
      rw [indentComments_cons, others]
      exact Prod.ext leadingStays (congrArg (fun text => { changed with text } :: below.2) textStays)

/-- The whitespace after the last comment, or the one before the first. -/
def lastAmong (leading : Text) : List Comment -> Text
  | [] => leading
  | first :: rest => lastAmong first.suffix rest

theorem lastAmong_eq
    (leading : Text)
    (comments : List Comment) :
    lastAmong leading comments = (comments.getLast?.map Comment.suffix).getD leading := by
  induction comments generalizing leading with
  | nil => rfl
  | cons first rest ih =>
      rw [lastAmong, ih, List.getLast?_cons]
      cases rest.getLast? <;> rfl

theorem lastWhitespace_eq (space : Space) : space.lastWhitespace = lastAmong space.whitespace space.comments := by
  rw [lastAmong_eq, Space.lastWhitespace]
  cases space.comments.getLast? <;> rfl

/-- The last whitespace is moved, whatever comments stand before it. -/
theorem lastAmong_indentComments
    (leading : Text)
    (comments : List Comment) :
    let moved := Exact.indentComments style column leading comments
    lastAmong moved.1 moved.2 = shiftWhitespace style column (lastAmong leading comments) := by
  induction comments generalizing leading with
  | nil => rfl
  | cons first rest ih =>
      rw [indentComments_cons]
      exact ih first.suffix

/-! ## Spaces -/

variable (space : Space)

theorem lastWhitespace_indentTo :
    (Exact.indentTo style column space).lastWhitespace = shiftWhitespace style column space.lastWhitespace := by
  have moved := contents_indentTo style column space
  have leading := congrArg Prod.fst moved
  have comments := congrArg Prod.snd moved
  change Space.whitespace _ = _ at leading
  change Space.comments _ = _ at comments
  rw [lastWhitespace_eq, lastWhitespace_eq, leading, comments]
  exact lastAmong_indentComments ..

/-- Behind the last line break stands the indentation of the column. -/
theorem indent_indentTo (feed : space.lastWhitespace.contains '\n' = true) :
    (Exact.indentTo style column space).indent = indentString style column := by
  rw [Space.indent, lastWhitespace_indentTo]
  exact afterLast_shiftWhitespace (List.contains_iff_mem.1 feed)

/-- A space ends in a new line as before. -/
theorem contains_lastWhitespace_indentTo :
    (Exact.indentTo style column space).lastWhitespace.contains '\n' = space.lastWhitespace.contains '\n' := by
  rw [lastWhitespace_indentTo, contains_shiftWhitespace]

/-- Where the last whitespace breaks the line, the space does. -/
theorem containsNewline_of_lastWhitespace
    {space : Space}
    (breaks : space.lastWhitespace.contains '\n' = true) :
    space.containsNewline = true := by
  rw [Space.containsNewline, Bool.or_eq_true_iff, List.any_eq_true]
  rw [Space.lastWhitespace] at breaks
  split at breaks
  · next last isLast => exact .inr ⟨last, List.mem_of_getLast? isLast, breaks⟩
  · exact .inl breaks

theorem containsNewline_eq_of_feeds
    {first second : Space}
    (same : feeds (contents first) = feeds (contents second)) :
    first.containsNewline = second.containsNewline := by
  have among (space : Space) : space.containsNewline = (feeds (contents space)).any (0 < ·) := by
    simp only [Space.containsNewline, feeds, contents, List.any_cons, List.any_map]
    congr 1
    · rw [Bool.eq_iff_iff, List.contains_iff_mem, decide_eq_true_eq, List.count_pos_iff]
    · refine congrArg₂ List.any rfl (funext fun comment => ?_)
      rw [Bool.eq_iff_iff, List.contains_iff_mem, Function.comp_apply, decide_eq_true_eq, List.count_pos_iff]
  rw [among, among, same]

/-- Each whitespace of a space keeps its line feeds. -/
theorem feeds_indentTo : feeds (contents (Exact.indentTo style column space)) = feeds (contents space) := by
  rw [contents_indentTo]
  exact feeds_indentComments ..

theorem containsNewline_indentTo :
    (Exact.indentTo style column space).containsNewline = space.containsNewline :=
  containsNewline_eq_of_feeds (feeds_indentTo space)

theorem indentTo_of_uncommented
    (breaks : space.containsNewline = true)
    (none : space.comments = []) :
    Exact.indentTo style column space = space.withWhitespace (shiftWhitespace style column space.whitespace) := by
  rw [Exact.indentTo, breaks, if_neg (by simp), if_pos none]

theorem indentTo_of_commented
    (breaks : space.containsNewline = true)
    (some : space.comments ≠ []) :
    let moved := Exact.indentComments style column space.whitespace space.comments
    Exact.indentTo style column space = .build moved.1 moved.2 := by
  rw [Exact.indentTo, breaks, if_neg (by simp), if_neg some]

/-- Moving a space to the column that it is in changes nothing. -/
theorem indentTo_indentTo : Exact.indentTo style column (Exact.indentTo style column space) = Exact.indentTo style column space := by
  cases breaks : space.containsNewline with
  | false =>
      have stays : Exact.indentTo style column space = space := Indents.indentTo_of_inLine style column breaks
      rw [stays, stays]
  | true =>
      have breaksMoved : (Exact.indentTo style column space).containsNewline = true := by
        rw [containsNewline_indentTo, breaks]
      by_cases none : space.comments = []
      · have moved := contents_indentTo style column space
        rw [none] at moved
        have whitespace : (Exact.indentTo style column space).whitespace = shiftWhitespace style column space.whitespace :=
          congrArg Prod.fst moved
        rw [indentTo_of_uncommented _ breaksMoved (congrArg Prod.snd moved), whitespace,
          shiftWhitespace_shiftWhitespace, ← whitespace, Space.withWhitespace, if_pos rfl]
      · have once : Exact.indentTo style column space = _ := indentTo_of_commented space breaks none
        have again : Exact.indentComments style column _ _ = _ :=
          indentComments_indentComments space.whitespace space.comments
        have someMoved : (Exact.indentTo style column space).comments ≠ [] := by
          obtain ⟨first, rest, commented⟩ := List.exists_cons_of_ne_nil none
          rw [once, Space.comments_build, commented, indentComments_cons]
          exact List.cons_ne_nil _ _
        rw [indentTo_of_commented _ breaksMoved someMoved, once, Space.whitespace_build, Space.comments_build, again]

end Format
end Lossless
