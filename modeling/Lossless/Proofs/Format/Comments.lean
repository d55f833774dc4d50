import Lossless.Format.Auto
import Lossless.Proofs.Format.Regaps
import Lossless.Proofs.Format.Safe

/-!
# Formatting touches spacing alone

No pass fails, and none changes anything but gaps. In the gaps it keeps the comments: their number, order and kinds,
the texts of line comments, and the texts of block comments but for blanks. The one exception is a margin that is no
whitespace: it is put before the lines of a block comment that is hoisted to a declaration.
-/

namespace Lossless

/-- The comment without what stands behind it; of the text of a block comment `body` tells what is left. -/
def Comment.outline
    (body : Text -> Text)
    (comment : Comment) : Comment :=
  { comment with
    text := if comment.isBlock then body comment.text else comment.text
    suffix := [] }

namespace Format

open Java

/-! ## Comments of gaps -/

section Outlines

variable (body : Text -> Text)

/-- The outlines of all comments in order. -/
def outlines (gaps : Gaps) : List Comment :=
  gaps.flatMap fun gap => gap.2.comments.map (Comment.outline body)

/-- Gaps with comments of the same outlines. -/
def SameComments (old new : Gaps) : Prop :=
  outlines body new = outlines body old

instance
    (old new : Gaps) :
    Decidable (SameComments body old new) :=
  inferInstanceAs (Decidable (_ = _))

theorem isGapRelation_sameComments : IsGapRelation (SameComments body) where
  refl := fun _ => rfl
  trans := fun first second => second.trans first
  append := fun first second => by
    simp only [SameComments, outlines, List.flatMap_append] at first second ⊢
    rw [first, second]

variable {body}

theorem sameComments_of_outline
    {old new : Space}
    (place : SpacePlace)
    (same : new.comments.map (Comment.outline body) = old.comments.map (Comment.outline body)) :
    GapOf (SameComments body) place old new := by
  simpa [GapOf, SameComments, outlines] using same

theorem sameBody_refl (text : Text) : SameBody text text := rfl

/-- What `body` tells is the same for texts that differ in blanks at the starts of lines and in line breaks. -/
abbrev ReadsLines (body : Text -> Text) : Prop :=
  forall old new, SameBody old new -> body new = body old

theorem Rewritten.sameComments
    {whitespace : Text -> Text -> Prop}
    {old new : Space}
    (reads : ReadsLines body)
    (place : SpacePlace)
    (rewritten : Rewritten whitespace SameBody old new) :
    GapOf (SameComments body) place old new := by
  have outline {old new : Comment} (related : RewrittenComment whitespace SameBody old new) :
      new.outline body = old.outline body := by
    unfold Comment.outline
    rw [related.isBlock, related.markers]
    cases isBlock : old.isBlock with
    | true => rw [if_pos rfl, if_pos rfl, reads _ _ (related.body isBlock)]
    | false => rw [if_neg (by simp), if_neg (by simp), related.line isBlock]
  have comments {olds news : List Comment}
      (related : List.Forall₂ (RewrittenComment whitespace SameBody) olds news) :
      news.map (Comment.outline body) = olds.map (Comment.outline body) := by
    induction related with
    | nil => rfl
    | cons first _ ih => rw [List.map_cons, List.map_cons, outline first, ih]
  exact sameComments_of_outline place (comments rewritten.comments)

end Outlines

/-! ## Texts without blanks -/

/-- What is left of a text without its blanks. -/
def solidText (text : Text) : Text :=
  text.filter fun char => !Text.isBlank char

theorem solidText_append (first second : Text) : solidText (first ++ second) = solidText first ++ solidText second :=
  List.filter_append ..

theorem solidText_of_blank
    {text : Text}
    (blank : text.all Text.isBlank = true) :
    solidText text = [] :=
  List.filter_eq_nil_iff.2 fun char member => by simp [List.all_eq_true.1 blank char member]

theorem solidText_cons
    (first : Char)
    (rest : Text) :
    solidText (first :: rest) = solidText [first] ++ solidText rest :=
  solidText_append [first] rest

/-- The lines of a text have its solid characters. -/
theorem flatMap_solidText_splitAt (text : Text) : (Text.splitAt '\n' text).flatMap solidText = solidText text := by
  induction text with
  | nil => rfl
  | cons first rest ih =>
      rw [Text.splitAt]
      split
      · next isFeed =>
          rw [isFeed, List.flatMap_cons, ih]
          rfl
      · cases pieces : Text.splitAt '\n' rest with
        | nil => exact absurd pieces (Text.splitAt_ne_nil '\n' rest)
        | cons piece more =>
            rw [solidText_cons, ← ih, pieces, List.flatMap_cons, List.flatMap_cons, solidText_cons first piece,
              List.append_assoc]

theorem solidText_dropWhile (line : Text) : solidText (line.dropWhile isIndent) = solidText line := by
  have blank : (line.takeWhile isIndent).all Text.isBlank = true :=
    List.all_eq_true.2 fun char member => isBlank_of_isIndent (List.mem_takeWhile_imp member)
  calc solidText (line.dropWhile isIndent)
      = solidText (line.takeWhile isIndent) ++ solidText (line.dropWhile isIndent) := by
        rw [solidText_of_blank blank, List.nil_append]
    _ = solidText line := by rw [← solidText_append, List.takeWhile_append_dropWhile]

theorem solidText_filter (text : Text) : solidText (text.filter isNoReturn) = solidText text := by
  rw [solidText, solidText, List.filter_filter]
  refine List.filter_congr fun char _ => ?_
  by_cases isReturn : char = '\r'
  · rw [isReturn]
    rfl
  · simp [isNoReturn, isReturn]

/-- The lines of a block comment tell its solid characters. -/
theorem solidText_eq_bodyLines (text : Text) : solidText text = (bodyLines text).flatMap solidText := by
  rw [← solidText_filter, ← flatMap_solidText_splitAt, bodyLines]
  cases Text.splitAt '\n' (text.filter isNoReturn) with
  | nil => rfl
  | cons first rest =>
      rw [List.flatMap_cons, List.flatMap_cons, List.flatMap_map]
      congr 1
      exact List.flatMap_congr fun line _ => (solidText_dropWhile line).symm

/-- Nothing of a text. -/
def nothing (_ : Text) : Text := []

theorem readsLines_nothing : ReadsLines nothing := fun _ _ _ => rfl

theorem readsLines_solidText : ReadsLines solidText := fun old new same => by
  rw [solidText_eq_bodyLines, solidText_eq_bodyLines old]
  exact congrArg _ same

/-- Shifting the lines of a text by a blank margin adds blanks. -/
theorem solidText_shiftLines
    {margin : Text}
    (blank : margin.all Text.isBlank = true)
    (text : Text) :
    solidText (shiftLines margin text) = solidText text := by
  induction text with
  | nil => rfl
  | cons first rest ih =>
      have shifted : shiftLines margin (first :: rest) =
          (if first = '\n' then '\n' :: margin else [first]) ++ shiftLines margin rest := rfl
      rw [shifted, solidText_append, ih, solidText_cons first rest]
      split
      · next isFeed => rw [isFeed, solidText_cons, solidText_of_blank blank, List.append_nil]
      · rfl

/-! ## The passes -/

section Passes

variable {body : Text -> Text} (reads : ReadsLines body)

include reads

theorem mapWhitespace_sameComments
    (change : Text -> Text)
    (place : SpacePlace)
    (space : Space) :
    GapOf (SameComments body) place space (space.mapWhitespace change) := by
  have rewritten : Rewritten (fun _ _ => True) SameBody space (space.mapWhitespace change) :=
    mapWhitespace_rewrites (fun _ => trivial) sameBody_refl space
  exact rewritten.sameComments reads place

theorem normalizeLineBreaks_sameComments
    (useCrlf : Bool)
    (place : SpacePlace)
    (space : Space) :
    GapOf (SameComments body) place space (normalizeLineBreaks useCrlf space) := by
  have rewritten : Rewritten (fun _ _ => True) SameBody space (normalizeLineBreaks useCrlf space) :=
    normalizeLineBreaks_rewrites (fun _ => trivial) (bodyLines_normalizeNewLines useCrlf) space
  exact rewritten.sameComments reads place

theorem moved_sameComments
    {style : IndentStyle}
    (place : SpacePlace)
    (old new : Space)
    (moved : Moved style place old new) :
    GapOf (SameComments body) place old new := by
  have relation := isGapRelation_sameComments body
  rcases moved with rfl | ⟨column, rfl⟩
  · exact relation.refl _
  · have unindent : GapOf (SameComments body) place old (unindented place old) := by
      unfold unindented
      split
      · exact sameComments_of_outline place (by rw [comments_withWhitespace])
      · exact relation.refl _
    have rewritten : Rewritten (fun _ _ => True) SameBody (unindented place old)
        (Exact.indentTo style column (unindented place old)) :=
      indentTo_rewrites (fun _ => ⟨trivial, trivial⟩)
        (fun text => ⟨sameBody_refl text, fun source => bodyLines_shiftCommentBody source column text⟩) _
    exact relation.trans unindent (rewritten.sameComments reads place)

omit reads in
theorem updateSpace_sameComments
    (place : SpacePlace)
    (wanted : Bool)
    (space : Space) :
    GapOf (SameComments body) place space (updateSpace wanted space) := by
  rcases updateSpace_cases wanted space with same | ⟨none, same⟩
  · rw [same]
    exact (isGapRelation_sameComments body).refl _
  · refine sameComments_of_outline place ?_
    rw [same, none]
    cases wanted <;> rfl

/-- The passes that leave every node its own gaps. -/
def spacingPasses (styles : Styles) : List Pass :=
  [blankLines styles.blankLines, spaces styles.spacing, tabsAndIndents styles.indents, tabsOrSpaces styles.indents,
    trailingWhitespace, lineBreaks styles.lineBreaks, minimumViableSpacing]

/-- The same passes with numbers of any size. -/
def Exact.spacingPasses (styles : Styles) : List Pass :=
  [blankLines styles.blankLines, spaces styles.spacing, tabsAndIndents styles.indents, tabsOrSpaces styles.indents,
    trailingWhitespace, lineBreaks styles.lineBreaks, minimumViableSpacing]

theorem spacingPasses_regap
    {styles : Styles}
    {pass : Pass}
    (member : pass ∈ Exact.spacingPasses styles) :
    pass.Regaps (SameComments body) := by
  have relation := isGapRelation_sameComments body
  simp only [Exact.spacingPasses, List.mem_cons, List.not_mem_nil, or_false] at member
  rcases member with rfl | rfl | rfl | rfl | rfl | rfl | rfl
  · exact ofSpaces_regaps relation fun _ _ => mapWhitespace_sameComments reads _ _ _
  · exact spaces_regaps relation updateSpace_sameComments _
  · exact tabsAndIndents_regaps relation (moved_sameComments reads)
  · exact ofSpaces_regaps relation fun _ _ => mapWhitespace_sameComments reads _ _ _
  · refine ofSpaces_regaps relation fun place space => ?_
    unfold stripSpace
    split
    · next alone =>
        rw [Bool.and_eq_true, decide_eq_true_eq, decide_eq_true_eq] at alone
        exact sameComments_of_outline place (by rw [alone.2]; rfl)
    · split <;> exact mapWhitespace_sameComments reads _ _ _
  · exact ofSpaces_regaps relation fun _ _ => normalizeLineBreaks_sameComments reads _ _ _
  · exact minimumViableSpacing_regaps relation fun place space _ =>
      sameComments_of_outline place (by rw [comments_withWhitespace])

end Passes

/-! ## Hoisting -/

theorem outline_withLastSuffix
    (body : Text -> Text)
    (suffix : Text)
    (comments : List Comment) :
    (Space.withLastSuffix suffix comments).map (Comment.outline body) = comments.map (Comment.outline body) := by
  induction comments with
  | nil => rfl
  | cons first rest ih =>
      cases rest with
      | nil => rfl
      | cons second more => exact congrArg (first.outline body :: ·) ih

/-- Putting a space after another one puts its comments after those of the other one. -/
theorem concatenate_sameComments
    {body : Text -> Text}
    {margin : Text}
    (shifts : forall text, body (shiftLines margin text) = body text)
    (place movedPlace : SpacePlace)
    (target moved : Space) :
    SameComments body [(place, target), (movedPlace, moved)]
      [(place, concatenate margin target moved), (movedPlace, .empty)] := by
  have shifted (comment : Comment) : (shiftComment margin comment).outline body = comment.outline body := by
    unfold Comment.outline shiftComment
    cases comment.isBlock with
    | true => simp only [if_true, shifts]
    | false => rfl
  have outlines : (concatenate margin target moved).comments.map (Comment.outline body) =
      target.comments.map (Comment.outline body) ++ moved.comments.map (Comment.outline body) := by
    unfold concatenate
    split
    · next none => simp [none, shifted]
    · simp [outline_withLastSuffix, shifted]
  simp [SameComments, Format.outlines, outlines, Space.empty]

/-! ## Runs -/

/-- A margin that is whitespace. -/
def IsBlankMargin (margin : Text) : Prop :=
  margin.all Text.isBlank = true

/--
Trees that differ in gaps alone, whose comments differ in the texts of block comments alone, and there in blanks
alone if all margins are whitespace.
-/
structure DiffersInSpacing (old new : Tree) : Prop where
  outline : Regapped (SameComments nothing) old new
  solid : HasMargins IsBlankMargin old -> Regapped (SameComments solidText) old new

theorem normalizeFormat_spacing
    (stopAfter : Option Stamp)
    (parent : TreeCursor)
    (tree : Tree) :
    exists new, normalizeFormat.run stopAfter parent tree = .ok (some new) ∧ DiffersInSpacing tree new := by
  have anyMargins : HasMargins (fun _ => True) tree := fun _ _ _ => trivial
  obtain ⟨new, runs, outline⟩ := normalizeFormat_regaps (isGapRelation_sameComments nothing)
    (fun _ _ _ _ _ => concatenate_sameComments (fun _ => rfl) _ _ _ _) anyMargins stopAfter parent
  refine ⟨new, runs, outline, fun margins => ?_⟩
  obtain ⟨same, runsAgain, solid⟩ := normalizeFormat_regaps (isGapRelation_sameComments solidText)
    (fun _ _ _ _ blank => concatenate_sameComments (solidText_shiftLines blank) _ _ _ _) margins stopAfter parent
  rw [runs] at runsAgain
  cases runsAgain
  exact solid

/-- Passes that change gaps alone, run one after the other. -/
theorem runPasses_regap
    {relates : Gaps -> Gaps -> Prop}
    {passes : List Pass}
    (relation : IsGapRelation relates)
    (each : forall pass, pass ∈ passes -> pass.Regaps relates)
    (stopAfter : Option Stamp)
    (parent : TreeCursor)
    (tree : Tree) :
    exists new, runPasses stopAfter parent passes tree = .ok new ∧ Regapped relates tree new := by
  induction passes generalizing tree with
  | nil => exact ⟨tree, rfl, .refl relation tree⟩
  | cons pass rest ih =>
      obtain ⟨here, later⟩ := List.forall_mem_cons.1 each
      obtain ⟨middle, runs, before⟩ := here stopAfter parent tree
      obtain ⟨new, finishes, after⟩ := ih later middle
      refine ⟨new, ?_, before.trans relation after⟩
      rw [runPasses, runs]
      exact finishes

/-- Behind hoisting, a formatting run has passes that leave every node its own gaps. -/
theorem mem_spacingPasses
    {styles : Styles}
    {pass : Pass}
    (member : pass ∈ (Exact.passes styles).tail) :
    pass ∈ Exact.spacingPasses styles := by
  unfold Exact.passes at member
  split at member <;> simp only [Exact.spacingPasses, List.cons_append, List.nil_append, List.tail_cons, List.mem_cons] at * <;>
    tauto

theorem autoFormat_spacing
    (configure : Styles -> Styles)
    (stopAfter : Option Stamp)
    (parent : TreeCursor)
    (tree : Tree) :
    exists new, Exact.autoFormat configure stopAfter parent tree = .ok new ∧ DiffersInSpacing tree new := by
  let styles := configure (enclosingStyles parent tree)
  obtain ⟨middle, runs, hoisted⟩ := normalizeFormat_spacing stopAfter parent tree
  have later {body : Text -> Text} (reads : ReadsLines body) :=
    runPasses_regap (isGapRelation_sameComments body)
      (fun pass (member : pass ∈ (Exact.passes styles).tail) => spacingPasses_regap reads (mem_spacingPasses member))
      stopAfter parent middle
  obtain ⟨new, finishes, outline⟩ := later readsLines_nothing
  obtain ⟨same, finishesAgain, solid⟩ := later readsLines_solidText
  rw [finishes] at finishesAgain
  obtain rfl := Except.ok.inj finishesAgain
  refine ⟨new, ?_, hoisted.outline.trans (isGapRelation_sameComments _) outline, fun margins =>
    (hoisted.solid margins).trans (isGapRelation_sameComments _) solid⟩
  have first : Exact.passes styles = normalizeFormat :: (Exact.passes styles).tail := rfl
  rw [Exact.autoFormat, first, runPasses, runs]
  exact finishes

end Format
end Lossless
