import Lossless.Proofs.Format.Fixpoint.Whitespace
import Lossless.Proofs.Format.TrailingBlanks

/-!
# Spaces that are formatted again

A formatting run caps the blank lines of a space, makes a space in a line a blank or nothing, moves what follows a line
break to a column, and finishes every line. What it makes of whitespace and of comments follows from their texts alone.
Once a space is finished, moving it to the column that it had been moved to and finishing it again changes nothing, in
comments neither.
-/

namespace Lossless
namespace Format

open Java Text

/-! ## Contents -/

/-- The whitespace and the comments of a space. -/
def contents (space : Space) : Text × List Comment :=
  (space.whitespace, space.comments)

/-- Whitespace and comments with all whitespace changed. -/
def mapContents
    (change : Text -> Text)
    (parts : Text × List Comment) : Text × List Comment :=
  (change parts.1, parts.2.map fun comment => { comment with suffix := change comment.suffix })

/-- A comment whose text is as it will be, and the whitespace after it as well. -/
def finishComment
    (style : IndentStyle)
    (useCrlf : Option Bool)
    (isEof : Bool)
    (comment : Comment) : Comment :=
  { comment with
    text := if comment.isBlock then alikeText useCrlf comment.text else comment.text
    suffix := finish style useCrlf isEof comment.suffix }

/-- What becomes of whitespace and comments once they have been moved. -/
def finishContents
    (style : IndentStyle)
    (useCrlf : Option Bool)
    (isEof : Bool)
    (parts : Text × List Comment) : Text × List Comment :=
  (finish style useCrlf isEof parts.1, parts.2.map (finishComment style useCrlf isEof))

/-- The numbers of line breaks in all whitespace. -/
def feeds (parts : Text × List Comment) : List Nat :=
  parts.1.count '\n' :: parts.2.map fun comment => comment.suffix.count '\n'

/-- Whitespace and texts that can stand inside a unit. -/
structure AreWhole (parts : Text × List Comment) : Prop where
  leading : parts.1.IsWhitespace
  suffixes : forall comment, comment ∈ parts.2 -> comment.suffix.IsWhitespace
  bodies : forall comment, comment ∈ parts.2 -> comment.isBlock = true -> IsBody comment.text

section Moving

variable {style : IndentStyle} {column : Nat} {useCrlf : Option Bool} {isEof : Bool}

/-- In a line, comments stay where they are. -/
theorem indentComments_of_inLine
    {leading : Text}
    {comments : List Comment}
    (noFeed : '\n' ∉ leading)
    (inLine : forall comment, comment ∈ comments -> '\n' ∉ comment.suffix) :
    Exact.indentComments style column leading comments = (leading, comments) := by
  induction comments generalizing leading with
  | nil => rw [Exact.indentComments, shiftWhitespace_of_notMem style column noFeed]
  | cons first rest ih =>
      obtain ⟨here, later⟩ := List.forall_mem_cons.1 inLine
      have inLine : leading.contains '\n' = false := by simpa using noFeed
      rw [Exact.indentComments, ih here later, inLine]
      simp

/-- What is moved to a column are the contents of the space, line by line. -/
theorem contents_indentTo
    (style : IndentStyle)
    (column : Nat)
    (space : Space) :
    contents (Exact.indentTo style column space) = Exact.indentComments style column space.whitespace space.comments := by
  unfold Exact.indentTo contents
  split
  · next inLine =>
      simp only [Space.containsNewline, Bool.not_eq_true', Bool.or_eq_false_iff, List.any_eq_false] at inLine
      refine (indentComments_of_inLine (by simpa using inLine.1) fun comment member => ?_).symm
      simpa using inLine.2 comment member
  · split
    · next none => simp [none, Exact.indentComments]
    · simp

/-- The whitespace before a comment is moved, or stays. -/
def movesTo
    (style : IndentStyle)
    (leading : Text)
    (comment : Comment) : Bool :=
  leading.contains '\n' && !(Exact.indentWidth style.tabSize leading = 0 && !comment.isBlock)

/-- The whitespace before a comment that has been moved. -/
def movedBefore
    (style : IndentStyle)
    (column : Nat)
    (leading : Text)
    (comment : Comment) : Text :=
  if movesTo style leading comment then shiftWhitespace style column leading else leading

/-- The text of a comment that has been moved. -/
def movedText
    (style : IndentStyle)
    (column : Nat)
    (leading : Text)
    (comment : Comment) : Text :=
  if comment.isBlock && leading.contains '\n' then
    shiftCommentBody (Exact.indentWidth style.tabSize leading) column comment.text
  else comment.text

theorem indentComments_cons
    (leading : Text)
    (comment : Comment)
    (rest : List Comment) :
    Exact.indentComments style column leading (comment :: rest) =
      (movedBefore style column leading comment,
        { comment with
          text := movedText style column leading comment
          suffix := (Exact.indentComments style column comment.suffix rest).1 } ::
          (Exact.indentComments style column comment.suffix rest).2) := by
  have stays : (!leading.contains '\n' || (Exact.indentWidth style.tabSize leading = 0 && !comment.isBlock : Bool)) =
      !movesTo style leading comment := by
    rw [movesTo, Bool.not_and, Bool.not_not]
  rw [Exact.indentComments, movedBefore]
  dsimp only
  rw [stays]
  cases movesTo style leading comment <;> rfl

theorem contains_eq_of_count
    {first second : Text}
    (same : first.count '\n' = second.count '\n') :
    first.contains '\n' = second.contains '\n' := by
  rw [Bool.eq_iff_iff, List.contains_iff_mem, List.contains_iff_mem, ← List.count_pos_iff, ← List.count_pos_iff, same]

/-- Whitespace before a comment, once it has been formatted, stays as it is when it is formatted again. -/
theorem finish_beforeComment
    {leading : Text}
    (blank : leading.IsWhitespace)
    (comment changed : Comment)
    (same : changed.isBlock = comment.isBlock) :
    let moved := finish style useCrlf isEof (movedBefore style column leading comment)
    finish style useCrlf isEof (movedBefore style column moved changed) = moved := by
  intro moved
  have blankShifted := (shiftWhitespace_kept style column blank).isWhitespace
  cases moves : movesTo style leading comment with
  | true =>
      have atMoved : moved = finish style useCrlf isEof (shiftWhitespace style column leading) := by
        simp only [moved, movedBefore, moves, if_true]
      rw [atMoved, movedBefore]
      split
      · exact finish_shift_finish column blank
      · exact finish_finish blankShifted
  | false =>
      have atMoved : moved = finish style useCrlf isEof leading := by
        simp only [moved, movedBefore, moves, Bool.false_eq_true, if_false]
      have stays : movesTo style moved changed = false := by
        have count : moved.count '\n' = leading.count '\n' := by rw [atMoved, count_finish blank]
        rw [movesTo, contains_eq_of_count count, same]
        cases feed : leading.contains '\n' with
        | false => rfl
        | true =>
            simp only [movesTo, feed, Bool.true_and, Bool.not_eq_false', Bool.and_eq_true, decide_eq_true_eq] at moves
            have zero : Exact.indentWidth style.tabSize moved = 0 := by
              rw [atMoved]
              exact indentWidth_finish_of_zero blank (List.contains_iff_mem.1 feed) moves.1
            simp [zero, moves.2]
      rw [movedBefore, stays, atMoved]
      exact finish_finish blank

/-- The text of a comment, once it has been formatted, stays as it is when it is formatted again. -/
theorem movedText_movedText
    {leading : Text}
    {comment changed : Comment}
    (eof : isEof = true -> column = 0)
    (blank : leading.IsWhitespace)
    (body : comment.isBlock = true -> IsBody comment.text)
    (same : changed.isBlock = comment.isBlock)
    (text : changed.text =
      if comment.isBlock then alikeText useCrlf (movedText style column leading comment)
      else movedText style column leading comment) :
    let moved := finish style useCrlf isEof (movedBefore style column leading comment)
    (if changed.isBlock then alikeText useCrlf (movedText style column moved changed)
      else movedText style column moved changed) = changed.text := by
  intro moved
  rw [same]
  cases isBlock : comment.isBlock with
  | false =>
      rw [if_neg (by simp), movedText, same, isBlock]
      rfl
  | true =>
      rw [isBlock, if_pos rfl] at text
      have isBody : IsBody (movedText style column leading comment) := by
        unfold movedText
        split
        · exact shiftCommentBody_isBody _ _ (body isBlock)
        · exact body isBlock
      have stays : movedText style column moved changed = changed.text := by
        rw [movedText, same, isBlock, Bool.true_and]
        cases feedMoved : moved.contains '\n' with
        | false => rfl
        | true =>
            have count : moved.count '\n' = leading.count '\n' := by
              simp only [moved, movedBefore]
              split
              · rw [count_finish (shiftWhitespace_kept style column blank).isWhitespace, count_shiftWhitespace]
              · rw [count_finish blank]
            have feed : leading.contains '\n' = true := by rw [← contains_eq_of_count count, feedMoved]
            have moves : movesTo style leading comment = true := by
              rw [movesTo, feed, isBlock, Bool.not_true, Bool.and_false, Bool.not_false, Bool.and_true]
            have inColumn : Exact.indentWidth style.tabSize moved = column := by
              simp only [moved, movedBefore, moves, if_true]
              exact indentWidth_finish_shift blank (List.contains_iff_mem.1 feed) eof
            rw [inColumn, if_pos rfl, shiftCommentBody, if_pos rfl]
      rw [if_pos rfl, stays, text, alikeText_alikeText isBody]

/-- Comments and whitespace, once they have been formatted, stay as they are when they are formatted again. -/
theorem finishContents_indentComments
    {leading : Text}
    {comments : List Comment}
    (eof : isEof = true -> column = 0)
    (whole : AreWhole (leading, comments)) :
    let moved := finishContents style useCrlf isEof (Exact.indentComments style column leading comments)
    finishContents style useCrlf isEof (Exact.indentComments style column moved.1 moved.2) = moved := by
  induction comments generalizing leading with
  | nil => exact Prod.ext (finish_shift_finish column whole.leading) rfl
  | cons first rest ih =>
      obtain ⟨here, later⟩ := List.forall_mem_cons.1 whole.suffixes
      obtain ⟨bodyHere, bodyLater⟩ := List.forall_mem_cons.1 whole.bodies
      have others := ih ⟨here, later, bodyLater⟩
      intro moved
      generalize behind : Exact.indentComments style column first.suffix rest = below at others
      let changed : Comment := finishComment style useCrlf isEof
        { first with text := movedText style column leading first, suffix := below.1 }
      have atMoved : moved = (finish style useCrlf isEof (movedBefore style column leading first),
          changed :: below.2.map (finishComment style useCrlf isEof)) := by
        simp only [moved, indentComments_cons, behind]
        rfl
      have atComment : finishComment style useCrlf isEof
          { changed with
            text := movedText style column moved.1 changed
            suffix := (Exact.indentComments style column changed.suffix (below.2.map (finishComment style useCrlf isEof))).1 } =
          changed := by
        have text : (if changed.isBlock then alikeText useCrlf (movedText style column moved.1 changed)
            else movedText style column moved.1 changed) = changed.text := by
          rw [atMoved]
          exact movedText_movedText eof whole.leading bodyHere rfl rfl
        have suffix := congrArg Prod.fst others
        exact congrArg₂ (fun text suffix => { changed with text, suffix }) text suffix
      rw [atMoved] at atComment
      rw [atMoved, indentComments_cons]
      exact Prod.ext (finish_beforeComment whole.leading first changed rfl)
        (List.cons_eq_cons.2 ⟨atComment, congrArg Prod.snd others⟩)

theorem count_movedBefore
    (leading : Text)
    (comment : Comment) :
    (movedBefore style column leading comment).count '\n' = leading.count '\n' := by
  unfold movedBefore
  split
  · exact count_shiftWhitespace column leading
  · rfl

/-- Moving takes no line break away and puts none in. -/
theorem feeds_indentComments
    (leading : Text)
    (comments : List Comment) :
    feeds (Exact.indentComments style column leading comments) = feeds (leading, comments) := by
  induction comments generalizing leading with
  | nil => exact congrArg (· :: []) (count_shiftWhitespace column leading)
  | cons first rest ih =>
      rw [indentComments_cons]
      exact congrArg₂ List.cons (count_movedBefore leading first) (ih first.suffix)

theorem areWhole_indentComments
    {leading : Text}
    {comments : List Comment}
    (whole : AreWhole (leading, comments)) :
    AreWhole (Exact.indentComments style column leading comments) := by
  induction comments generalizing leading with
  | nil => exact ⟨(shiftWhitespace_kept style column whole.leading).isWhitespace, nofun, nofun⟩
  | cons first rest ih =>
      obtain ⟨here, later⟩ := List.forall_mem_cons.1 whole.suffixes
      obtain ⟨bodyHere, bodyLater⟩ := List.forall_mem_cons.1 whole.bodies
      have below := ih ⟨here, later, bodyLater⟩
      rw [indentComments_cons]
      refine ⟨?_, List.forall_mem_cons.2 ⟨below.leading, below.suffixes⟩,
        List.forall_mem_cons.2 ⟨fun isBlock => ?_, below.bodies⟩⟩
      · unfold movedBefore
        split
        · exact (shiftWhitespace_kept style column whole.leading).isWhitespace
        · exact whole.leading
      · dsimp only
        unfold movedText
        split
        · exact shiftCommentBody_isBody _ _ (bodyHere isBlock)
        · exact bodyHere isBlock

theorem feeds_finishContents
    {parts : Text × List Comment}
    (whole : AreWhole parts) :
    feeds (finishContents style useCrlf isEof parts) = feeds parts := by
  rw [feeds, finishContents, count_finish whole.leading, List.map_map]
  exact congrArg (_ :: ·) (List.map_congr_left fun comment member => count_finish (whole.suffixes comment member))

/-! ## Blank lines -/

theorem areWhole_capped
    (keep : Nat)
    {parts : Text × List Comment}
    (whole : AreWhole parts) :
    AreWhole (mapContents (keepMaximumBreaks (keep + 1)) parts) :=
  ⟨(keepMaximumBreaks_kept keep.succ_pos whole.leading).isWhitespace,
    List.forall_mem_map.2 fun comment member =>
      (keepMaximumBreaks_kept keep.succ_pos (whole.suffixes comment member)).isWhitespace,
    List.forall_mem_map.2 whole.bodies⟩

variable {breaks : Nat}

theorem feeds_capped
    (breaks : Nat)
    (parts : Text × List Comment) :
    forall count, count ∈ feeds (mapContents (keepMaximumBreaks breaks) parts) -> count ≤ breaks := by
  rw [feeds, mapContents, List.map_map]
  exact List.forall_mem_cons.2 ⟨count_keepMaximumBreaks .., List.forall_mem_map.2 fun comment _ =>
    count_keepMaximumBreaks ..⟩

theorem capped_of_few
    {parts : Text × List Comment}
    (few : forall count, count ∈ feeds parts -> count ≤ breaks) :
    mapContents (keepMaximumBreaks breaks) parts = parts := by
  obtain ⟨here, later⟩ := List.forall_mem_cons.1 few
  refine Prod.ext (keepMaximumBreaks_of_few here) ?_
  refine (List.map_congr_left fun comment member => ?_).trans (List.map_id _)
  have fewBehind := List.forall_mem_map.1 later comment member
  rw [keepMaximumBreaks_of_few fewBehind]
  rfl

end Moving

/-! ## Formatting a space -/

/-- How many blank lines are kept in a place. -/
def keptLines
    (style : BlankLineStyle)
    (place : SpacePlace) : Nat :=
  if place = .blockEnd then style.beforeEndOfBlock else style.inCode

/-- A space with at most so many blank lines. -/
def cappedSpace
    (style : BlankLineStyle)
    (place : SpacePlace)
    (space : Space) : Space :=
  space.mapWhitespace (keepMaximumBreaks (keptLines style place + 1))

/-- A space with its line breaks made alike, if they are to be. -/
def alikeSpace
    (useCrlf : Option Bool)
    (space : Space) : Space :=
  match useCrlf with
  | none => space
  | some useCrlf => normalizeLineBreaks useCrlf space

/-- A space that has been capped, spaced and moved, with its lines finished. -/
def finishSpace
    (style : IndentStyle)
    (useCrlf : Option Bool)
    (place : SpacePlace)
    (space : Space) : Space :=
  let tabbed := space.mapWhitespace (Exact.retab style)
  alikeSpace useCrlf (if style.keepIndentsOnEmptyLines then tabbed else stripSpace place tabbed)

theorem contents_mapWhitespace
    (change : Text -> Text)
    (space : Space) :
    contents (space.mapWhitespace change) = mapContents change (contents space) :=
  Prod.ext (mapWhitespace_whitespace change space) (mapWhitespace_comments change space)

theorem contents_alikeSpace
    (useCrlf : Option Bool)
    (space : Space) :
    contents (alikeSpace useCrlf space) = (alikeText useCrlf space.whitespace, space.comments.map fun comment =>
      { comment with
        text := if comment.isBlock then alikeText useCrlf comment.text else comment.text
        suffix := alikeText useCrlf comment.suffix }) := by
  cases useCrlf with
  | none =>
      refine Prod.ext rfl ((List.map_id _).symm.trans (List.map_congr_left fun comment _ => ?_))
      obtain ⟨isBlock, text, suffix, markers⟩ := comment
      cases isBlock <;> rfl
  | some useCrlf =>
      exact Prod.ext (normalizeLineBreaks_whitespace useCrlf space) (normalizeLineBreaks_comments useCrlf space)

/-- Unless it is whitespace before the unit, a space is finished line by line. -/
theorem contents_finishSpace
    {style : IndentStyle}
    {useCrlf : Option Bool}
    {place : SpacePlace}
    (noPrefix : place ≠ .compilationUnitPrefix)
    (space : Space) :
    contents (finishSpace style useCrlf place space) =
      finishContents style useCrlf (place = .compilationUnitEof) (contents space) := by
  have stripped (space : Space) :
      contents (if style.keepIndentsOnEmptyLines then space else stripSpace place space) =
        mapContents (stripText style (place = .compilationUnitEof)) (contents space) := by
    have inner : ¬(decide (place = .compilationUnitPrefix) && decide (space.comments = [])) = true := by simp [noPrefix]
    rw [stripSpace, if_neg inner]
    by_cases keeps : style.keepIndentsOnEmptyLines = true
    · have same : stripText style (place = .compilationUnitEof) = id := by
        funext text
        exact if_pos keeps
      rw [if_pos keeps, same]
      exact Prod.ext rfl (List.map_id _).symm
    · by_cases isEof : place = .compilationUnitEof
      · have same : stripText style (place = .compilationUnitEof) = onlyLineBreaks := by
          funext text
          rw [stripText, if_neg keeps, if_pos (by simp [isEof])]
        rw [if_neg keeps, if_pos isEof, same, contents_mapWhitespace]
      · have same : stripText style (place = .compilationUnitEof) = stripTrailing := by
          funext text
          rw [stripText, if_neg keeps, if_neg (by simp [isEof])]
        rw [if_neg keeps, if_neg isEof, same, contents_mapWhitespace]
  have atEnd := stripped (space.mapWhitespace (Exact.retab style))
  rw [contents_mapWhitespace] at atEnd
  rw [finishSpace, contents_alikeSpace]
  refine Prod.ext (congrArg (alikeText useCrlf) (congrArg Prod.fst atEnd)) ?_
  refine (congrArg (List.map _) (congrArg Prod.snd atEnd)).trans ?_
  rw [mapContents, mapContents, List.map_map, List.map_map]
  rfl

/-- Whitespace in a line, without comments. -/
def IsPlain (parts : Text × List Comment) : Prop :=
  feeds parts = [0]

theorem isPlain_iff (parts : Text × List Comment) : IsPlain parts ↔ parts.2 = [] ∧ '\n' ∉ parts.1 := by
  rw [IsPlain, feeds, List.cons_eq_cons, List.map_eq_nil_iff, List.count_eq_zero, and_comm]

theorem isPlain_capped
    (keep : Nat)
    (parts : Text × List Comment) :
    IsPlain (mapContents (keepMaximumBreaks (keep + 1)) parts) ↔ IsPlain parts := by
  have feed := (keepMaximumBreaks_sameShape keep.succ_pos parts.1).contains_eq
  rw [Bool.eq_iff_iff, List.contains_iff_mem, List.contains_iff_mem] at feed
  rw [isPlain_iff, isPlain_iff, mapContents, feed, List.map_eq_nil_iff]

/-- Spacing leaves a space with a comment or a line break alone. -/
theorem respace_of_notPlain
    {space : Space}
    (slot : Slot)
    (more : ¬IsPlain (contents space)) :
    respace slot space = space := by
  unfold respace
  split
  · rfl
  · next wanted blank =>
      unfold updateSpace
      split
      · next blanks =>
          rw [Bool.and_eq_true, decide_eq_true_eq, List.all_eq_true] at blanks
          refine absurd ((isPlain_iff _).2 ⟨blanks.1, fun feed => ?_⟩) more
          cases of_decide_eq_true (blanks.2 _ feed)
      · rfl

section Again

variable {styles : Styles} {useCrlf : Option Bool} {slot : Slot} {space copy : Space}

theorem areWhole_of_isGapTo
    {final : Bool}
    (isGap : space.IsGapTo final) :
    AreWhole (contents space) := by
  have contained {comments : List Comment} (closed : Comment.AllClosed final comments) :
      forall comment, comment ∈ comments -> comment.isContained = true := by
    induction comments with
    | nil => exact nofun
    | cons first rest ih => exact List.forall_mem_cons.2 ⟨closed.1.2.2.1, ih closed.2⟩
  refine ⟨⟨isGap.blank, isGap.paired.1⟩, fun comment member => ?_, fun comment member isBlock => ?_⟩
  · exact ⟨isGap.closed.suffix_blank comment member, (isGap.paired.2 comment member).2⟩
  · have noClosing := contained isGap.closed comment member
    rw [Comment.isContained, isBlock, if_pos rfl] at noClosing
    exact ⟨(isGap.paired.2 comment member).1, noClosing⟩

/-! ### Whitespace in a line -/

/-- What spacing makes of whitespace without comments. -/
def blankFor
    (blank : Option Bool)
    (text : Text) : Text :=
  match blank with
  | none => text
  | some wanted => if text.all (fun char => char = ' ') then if wanted then [' '] else [] else text

theorem blankFor_blankFor
    (blank : Option Bool)
    (text : Text) :
    blankFor blank (blankFor blank text) = blankFor blank text := by
  cases blank with
  | none => rfl
  | some wanted =>
      by_cases blanks : text.all (fun char => char = ' ') = true
      · rw [show blankFor (some wanted) text = if wanted then [' '] else [] from if_pos blanks]
        cases wanted <;> rfl
      · rw [show blankFor (some wanted) text = text from if_neg blanks]
        exact if_neg blanks

theorem notMem_blankFor
    {text : Text}
    (blank : Option Bool)
    (noFeed : '\n' ∉ text) :
    '\n' ∉ blankFor blank text := by
  unfold blankFor
  split
  · exact noFeed
  · next wanted =>
      split
      · cases wanted <;> decide +kernel
      · exact noFeed

theorem isWhitespace_blankFor
    {text : Text}
    (blank : Option Bool)
    (whitespace : text.IsWhitespace) :
    (blankFor blank text).IsWhitespace := by
  unfold blankFor
  split
  · exact whitespace
  · next wanted =>
      split
      · cases wanted <;> exact ⟨by decide, by decide +kernel⟩
      · exact whitespace

theorem contents_respace_of_plain
    (none : space.comments = []) :
    contents (respace slot space) = (blankFor slot.blank space.whitespace, []) := by
  unfold respace blankFor
  cases slot.blank with
  | none => exact Prod.ext rfl none
  | some wanted =>
      dsimp only
      unfold updateSpace
      rw [none]
      simp only [decide_true, Bool.true_and]
      split
      · cases wanted <;> rfl
      · exact Prod.ext rfl none

/-- Spacing keeps the line breaks. -/
theorem containsNewline_respace
    (slot : Slot)
    (space : Space) :
    (respace slot space).containsNewline = space.containsNewline := by
  by_cases plain : IsPlain (contents space)
  · obtain ⟨none, noFeed⟩ := (isPlain_iff _).1 plain
    have spaced : contents (respace slot space) = _ := contents_respace_of_plain none
    have whitespace : (respace slot space).whitespace = blankFor slot.blank space.whitespace := congrArg Prod.fst spaced
    have comments : (respace slot space).comments = [] := congrArg Prod.snd spaced
    rw [Space.containsNewline, Space.containsNewline, whitespace, comments, show space.comments = [] from none]
    have noFeedBlank : '\n' ∉ blankFor slot.blank space.whitespace := notMem_blankFor slot.blank noFeed
    have noFeedWhitespace : '\n' ∉ space.whitespace := noFeed
    simp [noFeedBlank, noFeedWhitespace]
  · rw [respace_of_notPlain slot plain]

theorem alikeText_of_notMem
    {text : Text}
    (noFeed : '\n' ∉ text) :
    alikeText useCrlf text = text := by
  cases useCrlf with
  | none => rfl
  | some useCrlf =>
      rw [alikeText, normalizeNewLines, replace_of_notMem noFeed]
      cases useCrlf
      · rfl
      · exact replaceChar_of_notMem noFeed

theorem onlyLineBreaks_of_notMem
    {text : Text}
    (whitespace : text.IsWhitespace)
    (noFeed : '\n' ∉ text) :
    onlyLineBreaks text = [] := by
  have noReturn : '\r' ∉ text := (hasPairedReturns_iff_of_notMem noFeed).1 whitespace.2
  refine List.filter_eq_nil_iff.2 fun char member isBreak => ?_
  simp only [Format.isBreak, Bool.or_eq_true, decide_eq_true_eq] at isBreak
  rcases isBreak with rfl | rfl
  · exact noReturn member
  · exact noFeed member

/-- Of whitespace in a line, only what stands before and after a unit is stripped. -/
theorem contents_finishSpace_of_plain
    (useCrlf : Option Bool)
    (style : IndentStyle)
    (place : SpacePlace)
    (whitespace : space.whitespace.IsWhitespace)
    (plain : IsPlain (contents space)) :
    contents (finishSpace style useCrlf place space) =
      (if !style.keepIndentsOnEmptyLines && (place = .compilationUnitPrefix || place = .compilationUnitEof) then []
        else space.whitespace, []) := by
  obtain ⟨none, noFeed⟩ := (isPlain_iff _).1 plain
  have alike (stripped : Space) (text : Text) (same : contents stripped = (text, [])) (noFeedText : '\n' ∉ text) :
      contents (alikeSpace useCrlf stripped) = (text, []) := by
    have leading : stripped.whitespace = text := congrArg Prod.fst same
    have noComments : stripped.comments = [] := congrArg Prod.snd same
    rw [contents_alikeSpace, leading, noComments, alikeText_of_notMem noFeedText]
    rfl
  have tabbed : contents (space.mapWhitespace (Exact.retab style)) = (space.whitespace, []) := by
    rw [contents_mapWhitespace, show contents space = (space.whitespace, []) from Prod.ext rfl none]
    exact Prod.ext (retab_of_notMem style noFeed) rfl
  have noComments : (space.mapWhitespace (Exact.retab style)).comments = [] := congrArg Prod.snd tabbed
  unfold finishSpace
  dsimp only
  by_cases keeps : style.keepIndentsOnEmptyLines = true
  · rw [if_pos keeps, keeps, alike _ _ tabbed noFeed]
    rfl
  · rw [if_neg keeps, stripSpace, noComments]
    rw [Bool.not_eq_true] at keeps
    by_cases isPrefix : place = .compilationUnitPrefix
    · rw [if_pos (by simp [isPrefix]), if_pos (by simp [keeps, isPrefix])]
      exact alike _ _ rfl List.not_mem_nil
    · rw [if_neg (by simp [isPrefix])]
      by_cases isEof : place = .compilationUnitEof
      · rw [if_pos isEof, if_pos (by simp [keeps, isEof])]
        refine alike _ _ ?_ List.not_mem_nil
        rw [contents_mapWhitespace, tabbed]
        exact Prod.ext (onlyLineBreaks_of_notMem whitespace noFeed) rfl
      · rw [if_neg isEof, if_neg (by simp [isPrefix, isEof])]
        refine alike _ _ ?_ noFeed
        rw [contents_mapWhitespace, tabbed]
        exact Prod.ext (stripTrailing_of_notMem noFeed) rfl

end Again

end Format
end Lossless
