import Lossless.Proofs.Format.Column

/-!
# Spaces that are formatted twice

A formatting run caps the blank lines of a space, makes it a blank or nothing where the style wants that, moves what
follows its line breaks to a column, and finishes its lines. The next run reads the result. Its space breaks the line
where the first one does, so that it stands in the same slot; blank lines are capped and blanks are made already; and
when what follows is moved to the same column again, finishing gives the same space.
-/

namespace Lossless
namespace Format

open Java Text

variable {styles : Styles} {useCrlf : Option Bool} {slot : Slot} {space other old base new copy : Space}

/-! ## What contents tell -/

theorem contains_lastWhitespace_of_feeds (same : feeds (contents space) = feeds (contents other)) :
    space.lastWhitespace.contains '\n' = other.lastWhitespace.contains '\n' := by
  have last (space : Space) : (feeds (contents space)).getLast? = some (space.lastWhitespace.count '\n') := by
    rw [lastWhitespace_eq, lastAmong_eq, feeds, List.getLast?_cons, List.getLast?_map]
    cases atLast : space.comments.getLast? <;> simp [contents, atLast]
  have count := (last space).symm.trans ((congrArg List.getLast? same).trans (last other))
  exact contains_eq_of_count (Option.some.inj count)

theorem render_eq_of_contents (same : contents space = contents other) : space.render .slash = other.render .slash := by
  obtain ⟨leading, comments⟩ := Prod.mk.inj same
  rw [Space.render, Space.render, leading, comments]

theorem indentTo_of_plain
    {style : IndentStyle}
    {column : Nat}
    (plain : IsPlain (contents space)) :
    Exact.indentTo style column space = space := by
  obtain ⟨none, noFeed⟩ := (isPlain_iff _).1 plain
  refine Indents.indentTo_of_inLine style column ?_
  rw [Space.containsNewline, show space.comments = [] from none]
  simpa [contents] using noFeed

/-- What stands in a line is not moved, and may be cleared before a unit. -/
theorem contents_of_moved
    {style : IndentStyle}
    {place : SpacePlace}
    (plain : IsPlain (contents space))
    (moved : Moved style place space new) :
    contents new = contents space ∨ place = .compilationUnitPrefix ∧ contents new = ([], []) := by
  rcases moved with rfl | ⟨column, rfl⟩
  · exact .inl rfl
  · have none : space.comments = [] := ((isPlain_iff _).1 plain).1
    by_cases isPrefix : place = .compilationUnitPrefix
    · have cleared : contents (space.withWhitespace []) = ([], []) :=
        Prod.ext (whitespace_withWhitespace ..) ((comments_withWhitespace ..).trans none)
      have plainCleared : IsPlain (contents (space.withWhitespace [])) := by rw [cleared]; rfl
      rw [unindented, if_pos isPrefix, indentTo_of_plain plainCleared]
      exact .inr ⟨isPrefix, cleared⟩
    · rw [unindented, if_neg isPrefix, indentTo_of_plain plain]
      exact .inl rfl

/-! ## The first run -/

/-- A space that has been capped and spaced in its slot, and moved to some column. -/
structure IsPlaced
    (styles : Styles)
    (slot : Slot)
    (space : Space) : Prop where
  whole : AreWhole (contents space)
  few : forall count, count ∈ feeds (contents space) ->
    count ≤ keptLines styles.blankLines slot.place + 1
  spaced : slot.place ≠ .compilationUnitPrefix -> IsPlain (contents space) ->
    blankFor slot.blank space.whitespace = space.whitespace
  unit : slot.place = .compilationUnitPrefix -> IsPlain (contents space)

theorem isPlain_of_feeds (same : feeds (contents space) = feeds (contents other)) :
    IsPlain (contents space) ↔ IsPlain (contents other) := by
  rw [IsPlain, IsPlain, same]

/-- What stands in a line stays there, and nothing stands before a unit. -/
theorem isPlaced_of_plain
    (whitespace : space.whitespace.IsWhitespace)
    (plain : IsPlain (contents space))
    (spaced : slot.place ≠ .compilationUnitPrefix -> blankFor slot.blank space.whitespace = space.whitespace) :
    IsPlaced styles slot space := by
  have none : space.comments = [] := ((isPlain_iff _).1 plain).1
  refine ⟨⟨whitespace, ?_, ?_⟩, ?_, fun noPrefix _ => spaced noPrefix, fun _ => plain⟩
  · rw [show (contents space).2 = [] from none]
    exact nofun
  · rw [show (contents space).2 = [] from none]
    exact nofun
  · rw [show feeds (contents space) = [0] from plain]
    exact List.forall_mem_singleton.2 (Nat.zero_le _)

section First

variable (whole : AreWhole (contents old))
variable (isEmpty : slot.place = .compilationUnitPrefix -> old.isEmpty = true)
variable (moved : Moved styles.indents slot.place (respace slot (cappedSpace styles.blankLines slot.place old)) new)

include whole isEmpty moved

/-- A space in a line is spaced and stays there; any other one is capped and moved. -/
theorem plain_or_moved :
    IsPlain (contents old) ∧ IsPlain (contents new) ∧ new.whitespace.IsWhitespace ∧
        (slot.place ≠ .compilationUnitPrefix -> blankFor slot.blank new.whitespace = new.whitespace) ∨
      slot.place ≠ .compilationUnitPrefix ∧ ¬IsPlain (contents old) ∧
        Moved styles.indents slot.place (cappedSpace styles.blankLines slot.place old) new := by
  have plainCapped : IsPlain (contents (cappedSpace styles.blankLines slot.place old)) ↔ IsPlain (contents old) := by
    rw [cappedSpace, contents_mapWhitespace]
    exact isPlain_capped (keptLines styles.blankLines slot.place) (contents old)
  have wholeCapped : AreWhole (contents (cappedSpace styles.blankLines slot.place old)) := by
    rw [cappedSpace, contents_mapWhitespace]
    exact areWhole_capped _ whole
  generalize cappedSpace styles.blankLines slot.place old = capped at moved plainCapped wholeCapped ⊢
  rw [← plainCapped]
  by_cases plain : IsPlain (contents capped)
  · left
    obtain ⟨none, noFeed⟩ := (isPlain_iff _).1 plain
    have blank := isWhitespace_blankFor slot.blank wholeCapped.leading
    have noFeedBlank := notMem_blankFor slot.blank noFeed
    have spaced : contents (respace slot capped) = (blankFor slot.blank capped.whitespace, []) :=
      contents_respace_of_plain none
    have plainSpaced : IsPlain (contents (respace slot capped)) := by
      rw [spaced, isPlain_iff]
      exact ⟨rfl, noFeedBlank⟩
    rcases contents_of_moved plainSpaced moved with same | ⟨isPrefix, cleared⟩
    · have leading : new.whitespace = blankFor slot.blank capped.whitespace := congrArg Prod.fst (same.trans spaced)
      refine ⟨plain, same ▸ plainSpaced, leading ▸ blank, fun _ => ?_⟩
      rw [leading, blankFor_blankFor]
    · have leading : new.whitespace = [] := congrArg Prod.fst cleared
      exact ⟨plain, by rw [cleared]; rfl, leading ▸ ⟨rfl, rfl⟩, fun noPrefix => absurd isPrefix noPrefix⟩
  · right
    rw [respace_of_notPlain slot plain] at moved
    refine ⟨fun isPrefix => plain (plainCapped.2 ?_), plain, moved⟩
    have none := isEmpty isPrefix
    rw [Space.isEmpty, Bool.and_eq_true, List.isEmpty_iff, List.isEmpty_iff] at none
    rw [isPlain_iff]
    exact ⟨none.2, fun feed => by rw [show (contents old).1 = [] from none.1] at feed; cases feed⟩

/-- A run that keeps line breaks makes every space placed that can be read. -/
theorem isPlaced_of_moved : IsPlaced styles slot new := by
  rcases plain_or_moved whole isEmpty moved with ⟨-, plain, whitespace, spaced⟩ | ⟨noPrefix, notPlain, moved⟩
  · exact isPlaced_of_plain whitespace plain spaced
  · have atCapped : contents (cappedSpace styles.blankLines slot.place old) =
        mapContents (keepMaximumBreaks (keptLines styles.blankLines slot.place + 1)) (contents old) :=
      contents_mapWhitespace _ old
    have wholeCapped := areWhole_capped (keptLines styles.blankLines slot.place) whole
    have few := feeds_capped (keptLines styles.blankLines slot.place + 1) (contents old)
    have plainCapped := isPlain_capped (keptLines styles.blankLines slot.place) (contents old)
    rw [← atCapped] at wholeCapped few plainCapped
    have placed {space : Space} (whole : AreWhole (contents space))
        (same : feeds (contents space) = feeds (contents (cappedSpace styles.blankLines slot.place old))) :
        IsPlaced styles slot space := by
      refine ⟨whole, same ▸ few, fun _ plain => ?_, fun isPrefix => absurd isPrefix noPrefix⟩
      exact absurd (plainCapped.1 ((isPlain_of_feeds same).1 plain)) notPlain
    rcases moved with rfl | ⟨column, rfl⟩
    · exact placed wholeCapped rfl
    · rw [unindented, if_neg noPrefix]
      refine placed ?_ (feeds_indentTo _)
      rw [contents_indentTo]
      exact areWhole_indentComments wholeCapped

end First

/-! ## Line breaks -/

/-- Spaces that break a line alike, and what goes on in a line still does. -/
structure LineAlike (old new : Space) : Prop where
  lines : new.containsNewline = old.containsNewline
  last : new.lastWhitespace.contains '\n' = old.lastWhitespace.contains '\n'
  inLine : '\n' ∉ old.render .slash -> '\n' ∉ new.render .slash

theorem LineAlike.trans
    {first second third : Space}
    (before : LineAlike first second)
    (after : LineAlike second third) :
    LineAlike first third :=
  ⟨after.lines.trans before.lines, after.last.trans before.last, fun oneLine => after.inLine (before.inLine oneLine)⟩

theorem lineAlike_of_contents (same : contents new = contents old) : LineAlike old new :=
  ⟨containsNewline_eq_of_feeds (congrArg Format.feeds same), contains_lastWhitespace_of_feeds (congrArg Format.feeds same),
    fun oneLine => (render_eq_of_contents same).symm ▸ oneLine⟩

theorem containsNewline_of_oneLine (oneLine : '\n' ∉ space.render .slash) : space.containsNewline = false := by
  rw [Space.render, List.mem_append, not_or, List.mem_flatMap] at oneLine
  rw [Space.containsNewline, Bool.or_eq_false_iff, List.any_eq_false]
  refine ⟨by simpa using oneLine.1, fun comment member feed => oneLine.2 ⟨comment, member, ?_⟩⟩
  exact List.mem_append_right _ (List.contains_iff_mem.1 feed)

theorem lineAlike_indentTo
    (style : IndentStyle)
    (column : Nat)
    (space : Space) :
    LineAlike space (Exact.indentTo style column space) where
  lines := containsNewline_indentTo space
  last := contains_lastWhitespace_indentTo space
  inLine oneLine := by rwa [Indents.indentTo_of_inLine style column (containsNewline_of_oneLine oneLine)]

/-- What keeps the line breaks of all whitespace keeps those of a space. -/
theorem containsNewline_mapWhitespace
    {change : Text -> Text}
    (shape : forall text, SameShape text (change text))
    (space : Space) :
    (space.mapWhitespace change).containsNewline = space.containsNewline := by
  rw [Space.containsNewline, mapWhitespace_whitespace, mapWhitespace_comments, List.any_map, (shape _).contains_eq]
  exact congrArg (_ || ·) (congrArg (space.comments.any ·) (funext fun comment => (shape comment.suffix).contains_eq))

/-- Of blank lines so many are kept that a line break is. -/
theorem lineAlike_capped
    (style : BlankLineStyle)
    (place : SpacePlace)
    (space : Space) :
    LineAlike space (cappedSpace style place space) := by
  have shape := keepMaximumBreaks_sameShape (keptLines style place).succ_pos
  refine ⟨containsNewline_mapWhitespace shape space, ?_, fun oneLine => ?_⟩
  · have last : (cappedSpace style place space).lastWhitespace =
        keepMaximumBreaks (keptLines style place + 1) space.lastWhitespace := by
      rw [cappedSpace, Space.lastWhitespace, mapWhitespace_comments, List.getLast?_map, mapWhitespace_whitespace,
        Space.lastWhitespace]
      cases space.comments.getLast? <;> rfl
    rw [last, (shape _).contains_eq]
  · have few : forall count, count ∈ feeds (contents space) -> count ≤ keptLines style place + 1 := by
      have none := containsNewline_of_oneLine oneLine
      rw [Space.containsNewline, Bool.or_eq_false_iff, List.any_eq_false] at none
      have zero {text : Text} (noFeed : text.contains '\n' = false) :
          text.count '\n' ≤ keptLines style place + 1 := by
        rw [List.count_eq_zero.2 (by simpa using noFeed)]
        exact Nat.zero_le _
      exact List.forall_mem_cons.2
        ⟨zero none.1, List.forall_mem_map.2 fun comment member => zero (by simpa using none.2 comment member)⟩
    have same : contents (cappedSpace style place space) = contents space :=
      (contents_mapWhitespace _ space).trans (capped_of_few few)
    rwa [render_eq_of_contents same]

theorem lineAlike_of_plain
    (plain : IsPlain (contents old))
    (plainNew : IsPlain (contents new)) :
    LineAlike old new := by
  have same : feeds (contents new) = feeds (contents old) := plainNew.trans (Eq.symm plain)
  refine ⟨containsNewline_eq_of_feeds same, contains_lastWhitespace_of_feeds same, fun _ => ?_⟩
  obtain ⟨none, noFeed⟩ := (isPlain_iff _).1 plainNew
  rw [Space.render, show new.comments = [] from none]
  simpa [contents] using noFeed

/-- The first run breaks lines where the source does. -/
theorem lineAlike_of_moved
    (whole : AreWhole (contents old))
    (isEmpty : slot.place = .compilationUnitPrefix -> old.isEmpty = true)
    (moved : Moved styles.indents slot.place (respace slot (cappedSpace styles.blankLines slot.place old)) new) :
    LineAlike old new := by
  rcases plain_or_moved whole isEmpty moved with ⟨plain, plainNew, -, -⟩ | ⟨noPrefix, -, moved⟩
  · exact lineAlike_of_plain plain plainNew
  · refine (lineAlike_capped styles.blankLines slot.place old).trans ?_
    rcases moved with rfl | ⟨column, rfl⟩
    · exact lineAlike_of_contents rfl
    · rw [unindented, if_neg noPrefix]
      exact lineAlike_indentTo ..

/-! ## The second run -/

/-- Finishing takes no line break away and puts none in. -/
theorem feeds_finishSpace (placed : IsPlaced styles slot new) :
    feeds (contents (finishSpace styles.indents useCrlf slot.place new)) = feeds (contents new) := by
  by_cases isPrefix : slot.place = .compilationUnitPrefix
  · have plain := placed.unit isPrefix
    have finished := contents_finishSpace_of_plain useCrlf styles.indents slot.place placed.whole.leading plain
    rw [finished, show feeds (contents new) = [0] from plain, ← IsPlain, isPlain_iff]
    refine ⟨rfl, ?_⟩
    split
    · exact List.not_mem_nil
    · exact ((isPlain_iff _).1 plain).2
  · rw [contents_finishSpace isPrefix, feeds_finishContents placed.whole]

/-- What goes on in a line is finished already. -/
theorem finishContents_of_inLine
    {style : IndentStyle}
    (whole : AreWhole (contents space))
    (oneLine : '\n' ∉ space.render .slash) :
    finishContents style useCrlf false (contents space) = contents space := by
  have stays {text : Text} (whitespace : text.IsWhitespace) (noFeed : '\n' ∉ text) :
      finish style useCrlf false text = text := by
    rw [finish_of_notMem whitespace noFeed, stripLast, Bool.and_false, if_neg Bool.false_ne_true]
  rw [Space.render, List.mem_append, not_or, List.mem_flatMap] at oneLine
  refine Prod.ext (stays whole.leading oneLine.1) ?_
  refine (List.map_congr_left fun comment member => ?_).trans (List.map_id _)
  have inLine : '\n' ∉ comment.render .slash ++ comment.suffix := fun feed => oneLine.2 ⟨comment, member, feed⟩
  rw [List.mem_append, not_or] at inLine
  have text : '\n' ∉ comment.text := by
    intro feed
    refine inLine.1 ?_
    unfold Comment.render
    cases comment.isBlock <;> simp [feed]
  rw [finishComment, stays (whole.suffixes comment member) inLine.2, alikeText_of_notMem text, ite_self]
  rfl

/-- What the next run makes of a finished space before it moves it, with what comes of that in the same column. -/
structure Echoes
    (styles : Styles)
    (useCrlf : Option Bool)
    (slot : Slot)
    (new copy : Space) : Prop where
  feeds : feeds (contents copy) = feeds (contents new)
  inLine : SpacePlace.IsInner slot.place -> '\n' ∉ new.render .slash -> copy.render .slash = new.render .slash
  again : slot.place ≠ .compilationUnitPrefix -> forall column, Exact.indentTo styles.indents column new = new ->
    (slot.place = .compilationUnitEof -> column = 0) ->
      contents (finishSpace styles.indents useCrlf slot.place (Exact.indentTo styles.indents column copy)) =
        contents (finishSpace styles.indents useCrlf slot.place new)

theorem echoes_of_isPlaced
    (placed : IsPlaced styles slot new)
    (same : contents base = contents (finishSpace styles.indents useCrlf slot.place new)) :
    Echoes styles useCrlf slot new (respace slot (cappedSpace styles.blankLines slot.place base)) := by
  have sameFeeds : Format.feeds (contents base) = Format.feeds (contents new) := same ▸ feeds_finishSpace placed
  have capped : contents (cappedSpace styles.blankLines slot.place base) = contents base := by
    refine (contents_mapWhitespace _ base).trans (capped_of_few ?_)
    rw [sameFeeds]
    exact placed.few
  rw [← capped] at same sameFeeds
  generalize cappedSpace styles.blankLines slot.place base = read at same sameFeeds
  by_cases plain : IsPlain (contents new)
  · have finished := contents_finishSpace_of_plain useCrlf styles.indents slot.place placed.whole.leading plain
    rw [finished] at same
    have plainRead : IsPlain (contents read) := (isPlain_of_feeds sameFeeds).2 plain
    obtain ⟨none, noFeed⟩ := (isPlain_iff _).1 plainRead
    have whitespace : Text.IsWhitespace (if !styles.indents.keepIndentsOnEmptyLines &&
        (slot.place = .compilationUnitPrefix || slot.place = .compilationUnitEof) then [] else new.whitespace) := by
      split
      · exact ⟨rfl, rfl⟩
      · exact placed.whole.leading
    have spaced : contents (respace slot read) = (blankFor slot.blank read.whitespace, []) :=
      contents_respace_of_plain none
    have leading := congrArg Prod.fst same
    change read.whitespace = _ at leading
    dsimp only at leading
    have blank : (blankFor slot.blank read.whitespace).IsWhitespace := isWhitespace_blankFor slot.blank (leading ▸ whitespace)
    have noFeedBlank := notMem_blankFor slot.blank noFeed
    have plainSpaced : IsPlain (contents (respace slot read)) := by
      rw [spaced, isPlain_iff]
      exact ⟨rfl, noFeedBlank⟩
    refine ⟨plainSpaced.trans (Eq.symm plain), fun isInner _ => ?_, fun noPrefix column _ _ => ?_⟩
    · refine render_eq_of_contents (spaced.trans ?_)
      rw [leading, if_neg (by simp [isInner.1, isInner.2]), placed.spaced isInner.1 plain]
      exact Prod.ext rfl ((isPlain_iff _).1 plain).1.symm
    · have atCopy : (respace slot read).whitespace = blankFor slot.blank read.whitespace := congrArg Prod.fst spaced
      rw [indentTo_of_plain plainSpaced, contents_finishSpace_of_plain _ _ _ (atCopy ▸ blank) plainSpaced, finished, atCopy]
      split
      · rfl
      · next keeps => rw [leading, if_neg keeps, placed.spaced noPrefix plain]
  · have noPrefix : slot.place ≠ .compilationUnitPrefix := fun isPrefix => plain (placed.unit isPrefix)
    have plainRead : ¬IsPlain (contents read) := (isPlain_of_feeds sameFeeds).not.2 plain
    rw [respace_of_notPlain slot plainRead]
    rw [contents_finishSpace noPrefix] at same
    refine ⟨sameFeeds, fun isInner oneLine => ?_, fun _ column inColumn eof => ?_⟩
    · have notEof : decide (slot.place = .compilationUnitEof) = false := by simp [isInner.2]
      rw [notEof, finishContents_of_inLine placed.whole oneLine] at same
      exact render_eq_of_contents same
    · have moved := contents_indentTo styles.indents column new
      rw [inColumn] at moved
      rw [contents_finishSpace noPrefix, contents_finishSpace noPrefix, contents_indentTo]
      change finishContents _ _ _ (Exact.indentComments _ _ (contents read).1 (contents read).2) = _
      rw [same, moved]
      exact finishContents_indentComments (fun isEof => eof (of_decide_eq_true isEof)) placed.whole

end Format
end Lossless
