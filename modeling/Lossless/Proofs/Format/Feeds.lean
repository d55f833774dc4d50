import Lossless.Proofs.Format.Program
import Lossless.Proofs.Format.TextInvariant
import Lossless.Proofs.Java.Whole
import Lossless.Proofs.Layout.Bare

/-!
# Formatting keeps returns before line feeds

Where every line feed comes right after a carriage return, it still does after formatting. The one exception is the
indentation of empty lines, which writes line feeds alone between the lines that it indents.
-/

namespace Lossless

open Text

/-! ## Spaces -/

/-- In every text of the space, every line feed comes right after a carriage return. -/
def Space.HasPairedFeeds (space : Space) : Prop :=
  space.whitespace.hasPairedFeeds = true ∧ forall comment, comment ∈ space.comments ->
    comment.text.hasPairedFeeds = true ∧ comment.suffix.hasPairedFeeds = true

theorem Text.endsInReturn_append_eq_false
    {left right : Text}
    (closedLeft : left.endsInReturn = false)
    (closedRight : right.endsInReturn = false) :
    endsInReturn (left ++ right) = false := by
  rw [endsInReturn, endsFrom_append, show endsFrom false left = false from closedLeft]
  exact closedRight

section Rendering

variable {comment : Comment} {space : Space} {delimiters : CommentDelimiters}

theorem Comment.hasPairedFeeds_render (feeds : comment.text.hasPairedFeeds = true) :
    (comment.render delimiters).hasPairedFeeds = true := by
  unfold Comment.render
  split
  · exact hasPairedFeeds_append (hasPairedFeeds_append rfl feeds) rfl
  · exact hasPairedFeeds_append rfl feeds
  · exact hasPairedFeeds_append (show hasPairedFeeds ['#'] = true from rfl) feeds

theorem Space.hasPairedFeeds_render (feeds : space.HasPairedFeeds) :
    (space.render delimiters).hasPairedFeeds = true :=
  hasPairedFeeds_append feeds.1 <| hasPairedFeeds_flatMap fun comment member =>
    hasPairedFeeds_append (comment.hasPairedFeeds_render (feeds.2 comment member).1) (feeds.2 comment member).2

/-- A comment with paired returns does not end with one. -/
theorem Comment.endsInReturn_render (paired : comment.IsPaired) :
    (comment.render .slash).endsInReturn = false ∧ comment.suffix.endsInReturn = false := by
  have closed := endsInReturn_of_paired paired.1
  refine ⟨?_, endsInReturn_of_paired paired.2⟩
  unfold Comment.render
  split
  · exact endsInReturn_append_eq_false (endsInReturn_append_eq_false rfl closed) rfl
  · exact endsInReturn_append_eq_false rfl closed
  · next differs => cases differs

theorem Space.endsInReturn_render (paired : space.IsPaired) : (space.render .slash).endsInReturn = false := by
  refine endsInReturn_append_eq_false (endsInReturn_of_paired paired.1) ?_
  have comments := paired.2
  generalize space.comments = list at comments
  induction list with
  | nil => rfl
  | cons first rest ih =>
      obtain ⟨here, later⟩ := List.forall_mem_cons.1 comments
      obtain ⟨text, suffix⟩ := Comment.endsInReturn_render here
      exact endsInReturn_append_eq_false (endsInReturn_append_eq_false text suffix) (ih later)

theorem Comment.hasPairedFeeds_of_render
    (paired : comment.IsPaired)
    (feeds : (comment.render .slash).hasPairedFeeds = true) :
    comment.text.hasPairedFeeds = true := by
  have closed := endsInReturn_of_paired paired.1
  unfold Comment.render at feeds
  split at feeds
  · have front := (hasPairedFeeds_of_append feeds (endsInReturn_append_eq_false rfl closed)).1
    exact (hasPairedFeeds_of_append front rfl).2
  · exact (hasPairedFeeds_of_append feeds rfl).2
  · next differs => cases differs

theorem Space.hasPairedFeeds_of_render
    (paired : space.IsPaired)
    (feeds : (space.render .slash).hasPairedFeeds = true) :
    space.HasPairedFeeds := by
  obtain ⟨whitespace, comments⟩ := hasPairedFeeds_of_append feeds (endsInReturn_of_paired paired.1)
  have closed (comment : Comment) (member : comment ∈ space.comments) :
      (comment.render .slash ++ comment.suffix).endsInReturn = false := by
    obtain ⟨text, suffix⟩ := Comment.endsInReturn_render (paired.2 comment member)
    exact endsInReturn_append_eq_false text suffix
  refine ⟨whitespace, fun comment member => ?_⟩
  have atComment := paired.2 comment member
  obtain ⟨text, suffix⟩ := hasPairedFeeds_of_append (hasPairedFeeds_of_flatMap comments closed comment member)
    (Comment.endsInReturn_render atComment).1
  exact ⟨comment.hasPairedFeeds_of_render atComment text, suffix⟩

end Rendering

/-! ## Pieces -/

namespace Java

/-- Where no piece tears a line break apart, the tokens and the spaces have what the whole text has. -/
theorem hasPairedFeeds_of_renderAll
    {pieces : Pieces}
    (whole : AllWhole pieces)
    (feeds : (Piece.renderAll .slash .hidden pieces).hasPairedFeeds = true) :
    (forall token, token ∈ Piece.tokens pieces -> token.hasPairedFeeds = true) ∧
      forall gap, gap ∈ Piece.spaces pieces -> gap.2.HasPairedFeeds := by
  have closed (piece : Piece SpacePlace) (member : piece ∈ pieces) :
      (piece.render .slash .hidden).endsInReturn = false := by
    have isWhole := whole piece member
    cases piece with
    | space place content => exact Space.endsInReturn_render isWhole
    | token text => exact isWhole
    | start => rfl
    | finish => rfl
  have each := hasPairedFeeds_of_flatMap feeds closed
  constructor
  · intro token member
    exact each _ (Piece.mem_tokens_iff.1 member)
  · intro gap member
    have isPiece := Piece.mem_spaces_iff.1 member
    exact Space.hasPairedFeeds_of_render (whole _ isPiece) (each _ isPiece)

theorem hasPairedFeeds_renderAll
    {pieces : Pieces}
    {delimiters : CommentDelimiters}
    (tokens : forall token, token ∈ Piece.tokens pieces -> token.hasPairedFeeds = true)
    (gaps : forall gap, gap ∈ Piece.spaces pieces -> gap.2.HasPairedFeeds) :
    (Piece.renderAll delimiters .hidden pieces).hasPairedFeeds = true := by
  refine hasPairedFeeds_flatMap fun piece member => ?_
  cases piece with
  | space place content => exact Space.hasPairedFeeds_render (gaps (place, content) (Piece.mem_spaces_iff.2 member))
  | token text => exact tokens text (Piece.mem_tokens_iff.2 member)
  | start => rfl
  | finish => rfl

end Java

namespace Format

open Java Config

/-! ## Texts -/

/-- What becomes of a text in which every line feed comes right after a carriage return. -/
def KeepsFeeds (old new : Text) : Prop :=
  old.hasPairedFeeds = true -> new.hasPairedFeeds = true

section Texts

variable {text : Text}

/-- Lines that differ in their indentation end alike. -/
theorem SameBehindIndent.endsInReturn
    {old new : Text}
    (same : SameBehindIndent old new)
    (ends : old.endsInReturn = true) :
    new.endsInReturn = true := by
  obtain ⟨front, frontNew, common, allIndent, -, rfl, rfl⟩ := same
  have nonempty : common ≠ [] := by
    rintro rfl
    rw [List.append_nil, endsInReturn_of_all rfl allIndent] at ends
    cases ends
  rw [endsInReturn_append _ nonempty] at ends ⊢
  exact ends

theorem keepsFeeds_mapContinuations
    {change : Text -> Text}
    (same : forall line, SameBehindIndent line (change line)) :
    KeepsFeeds text (mapContinuations change text) := by
  intro feeds
  obtain ⟨lines, last, has⟩ := exists_hasLines text
  cases lines with
  | nil => rwa [mapContinuations_of_notMem fun feed => has.mem_iff.1 feed rfl]
  | cons first rest =>
      have hasNew := has.mapContinuations fun line absent => (same line).notMem rfl absent
      obtain ⟨here, later⟩ := List.forall_mem_cons.1 (has.feeds_iff.1 feeds)
      exact hasNew.feeds_iff.2 (List.forall_mem_cons.2 ⟨here, List.forall_mem_map.2 fun line member =>
        (same line).endsInReturn (later line member)⟩)

theorem keepsFeeds_shiftCommentBody (source target : Nat) : KeepsFeeds text (shiftCommentBody source target text) := by
  intro feeds
  rcases shiftCommentBody_eq source target text with same | moved
  · rwa [same]
  · rw [moved]
    exact keepsFeeds_mapContinuations (sameBehindIndent_shiftCommentLine source target) feeds

theorem keepsFeeds_retab (style : IndentStyle) : KeepsFeeds text (Exact.retab style text) :=
  keepsFeeds_mapContinuations (sameBehindIndent_retabLine style)

theorem keepsFeeds_shiftWhitespace
    {style : IndentStyle}
    (plain : style.keepIndentsOnEmptyLines = false)
    (column : Nat) :
    KeepsFeeds text (shiftWhitespace style column text) := by
  intro feeds
  obtain ⟨lines, last, has⟩ := exists_hasLines text
  cases lines with
  | nil => rwa [shiftWhitespace_of_notMem style column fun feed => has.mem_iff.1 feed rfl]
  | cons first rest =>
      have hasNew := hasLines_shiftWhitespace style column has
      rw [plain, if_neg (by simp)] at hasNew
      exact hasNew.feeds_iff.2 (has.feeds_iff.1 feeds)

theorem endsInReturn_onlyLineBreaks
    {line : Text}
    (ends : line.endsInReturn = true) :
    (onlyLineBreaks line).endsInReturn = true := by
  obtain ⟨front, rfl⟩ := endsInReturn_iff.1 ends
  exact endsInReturn_iff.2 ⟨onlyLineBreaks front, List.filter_append ..⟩

theorem keepsFeeds_onlyLineBreaks : KeepsFeeds text (onlyLineBreaks text) := by
  intro feeds
  obtain ⟨lines, last, has⟩ := exists_hasLines text
  exact (hasLines_onlyLineBreaks has).feeds_iff.2 (List.forall_mem_map.2 fun line member =>
    endsInReturn_onlyLineBreaks (has.feeds_iff.1 feeds line member))

theorem keepsFeeds_stripTrailing : KeepsFeeds text (stripTrailing text) := by
  intro feeds
  obtain ⟨lines, last, has⟩ := exists_hasLines text
  exact (hasLines_stripTrailing has).feeds_iff.2 (List.forall_mem_map.2 fun line member =>
    endsInReturn_onlyLineBreaks (has.feeds_iff.1 feeds line member))

theorem containsCrlf_append
    (front rest : Text) :
    containsCrlf (front ++ '\r' :: '\n' :: rest) = true := by
  induction front with
  | nil => rfl
  | cons first front ih =>
      rw [List.cons_append]
      unfold containsCrlf
      split
      · rfl
      · next same =>
          obtain ⟨-, rfl⟩ := List.cons.inj same
          exact ih
      · next none => cases none

/-- With paired line feeds, any line break shows that the text has carriage returns. -/
theorem containsCrlf_of_feeds
    (feeds : text.hasPairedFeeds = true)
    (feed : '\n' ∈ text) :
    containsCrlf text = true := by
  obtain ⟨lines, last, has⟩ := exists_hasLines text
  cases lines with
  | nil => exact absurd rfl (has.mem_iff.1 feed)
  | cons first rest =>
      obtain ⟨front, ends⟩ := endsInReturn_iff.1 (has.feeds_iff.1 feeds first List.mem_cons_self)
      rw [has.eq, ofLines_cons, ends, List.append_assoc]
      exact containsCrlf_append front _

theorem keepsFeeds_keepMaximumBreaks (breaks : Nat) : KeepsFeeds text (keepMaximumBreaks breaks text) := by
  intro feeds
  unfold keepMaximumBreaks
  dsimp only
  split
  · exact feeds
  · next many =>
      have feed : '\n' ∈ text := List.count_pos_iff.1 (by omega)
      obtain ⟨lines, last, has⟩ := exists_hasLines text
      have start : '\n' ∉ text.takeWhile fun char => !isBreak char := fun member => by
        cases List.mem_takeWhile_imp member
      have breaks (count : Nat) : hasPairedFeeds (List.replicate count ['\r', '\n']).flatten = true := by
        induction count with
        | zero => rfl
        | succ count ih => exact hasPairedFeeds_append (show hasPairedFeeds ['\r', '\n'] = true from rfl) ih
      rw [containsCrlf_of_feeds feeds feed, if_pos rfl, has.afterLast_eq]
      exact hasPairedFeeds_append (hasPairedFeeds_append (hasPairedFeeds_of_notMem start) (breaks _))
        (hasPairedFeeds_of_notMem has.noFeedLast)

theorem keepsFeeds_shiftLines
    {margin : Text}
    (noFeed : '\n' ∉ margin) :
    KeepsFeeds text (shiftLines margin text) := by
  suffices forall afterReturn, feedsFrom afterReturn text = true ->
      feedsFrom afterReturn (shiftLines margin text) = true from this false
  induction text with
  | nil => exact fun _ feeds => feeds
  | cons first rest ih =>
      intro afterReturn feeds
      have shifted : shiftLines margin (first :: rest) =
          (if first = '\n' then '\n' :: margin else [first]) ++ shiftLines margin rest := rfl
      rw [feedsFrom, Bool.and_eq_true] at feeds
      rw [shifted, feedsFrom_append, Bool.and_eq_true]
      split
      · next isFeed =>
          subst isFeed
          have inMargin : feedsFrom false margin = true := hasPairedFeeds_of_notMem noFeed
          refine ⟨?_, feedsFrom_of_false (ih _ feeds.2) _⟩
          rw [feedsFrom, Bool.and_eq_true]
          exact ⟨feeds.1, inMargin⟩
      · refine ⟨?_, ih _ feeds.2⟩
        rw [feedsFrom, Bool.and_eq_true]
        exact ⟨feeds.1, rfl⟩

end Texts

/-! ## Passes -/

/-- What becomes of gaps in which every line feed comes right after a carriage return. -/
def KeepsGapFeeds (old new : Gaps) : Prop :=
  (forall gap, gap ∈ old -> gap.2.HasPairedFeeds) -> forall gap, gap ∈ new -> gap.2.HasPairedFeeds

theorem isGapRelation_keepsGapFeeds : IsGapRelation KeepsGapFeeds :=
  isGapRelation_keepsAll Space.HasPairedFeeds

/-- A margin starts behind the last line feed. -/
theorem notMem_commonMargin (space : Space) : '\n' ∉ commonMargin space := by
  obtain ⟨lines, last, has⟩ := exists_hasLines space.whitespace
  rw [commonMargin_eq has]
  split
  · exact List.not_mem_nil
  · exact has.noFeedLast

theorem isTextInvariant_hasPairedFeeds
    {style : IndentStyle}
    (plain : style.keepIndentsOnEmptyLines = false) :
    IsTextInvariant style (fun text => text.hasPairedFeeds = true) where
  empty := rfl
  blank := rfl
  append := hasPairedFeeds_append
  keepMaximumBreaks := fun breaks _ => keepsFeeds_keepMaximumBreaks breaks
  shiftWhitespace := fun column _ => keepsFeeds_shiftWhitespace plain column
  shiftCommentBody := fun source target _ => keepsFeeds_shiftCommentBody source target
  retab := keepsFeeds_retab style
  onlyLineBreaks := keepsFeeds_onlyLineBreaks
  stripTrailing := keepsFeeds_stripTrailing
  shiftLines := fun target _ _ => keepsFeeds_shiftLines (notMem_commonMargin target)

/-- The passes of a formatting run that does not indent empty lines keep returns before line feeds. -/
theorem passes_keepFeeds
    {styles : Styles}
    {pass : Pass}
    (plain : styles.indents.keepIndentsOnEmptyLines = false)
    (member : pass ∈ Exact.passes styles) :
    pass.Regaps KeepsGapFeeds :=
  (isTextInvariant_hasPairedFeeds plain).passes_regap member

/-! ## Sources -/

section Sources

variable {settings : Option FormatterSettings} {source : Text} {path : Path} {tree : Tree}

/-- A unit that can be read is of the Java dialect. -/
theorem dialect_of_isUnitOf (unit : tree.IsUnitOf path) : tree.dialect = .java := by
  obtain ⟨statements, eof, form⟩ := unit.isUnit
  rw [Tree.dialect, Tree.dialect?, form]
  rfl

/-- What a source parses as still prints as the source once it is numbered. -/
theorem printTrimmed_settle
    (paired : source.hasPairedReturns = true)
    (parsed : parse source path = .ok tree)
    (next : Nat) :
    (tree.settle.run next).1.IsUnitOf path ∧ (tree.settle.run next).1.printTrimmed = source := by
  obtain ⟨unit, -⟩ := isUnitOf_of_parse paired parsed
  have settled : Relaid {} (fun slot => SameSpace slot.place) .root tree (tree.settle.run next).1 :=
    (numbered_settle unit.isPart (fun _ => unit.isEmpty) next .root).mono fun _ _ _ numbered => numbered.same
  have unitSettled := settled.isUnitOf isSafe_copied.keeps unit
  refine ⟨unitSettled, ?_⟩
  rw [← print_of_parse paired parsed, Tree.printTrimmed, Tree.printTrimmed, dialect_of_isUnitOf unitSettled,
    dialect_of_isUnitOf unit]
  refine settled.printed.2.renderAll_eq fun _ old new same => ?_
  rw [← Space.render_renewed, show new.renewed = old.renewed from same, Space.render_renewed]

/-- A unit with paired returns whose line feeds are paired keeps them so when its gaps do. -/
theorem hasPairedFeeds_of_regapped
    {new : Tree}
    (unit : tree.IsUnitOf path)
    (feeds : tree.printTrimmed.hasPairedFeeds = true)
    (regapped : Regapped KeepsGapFeeds tree new) :
    new.printTrimmed.hasPairedFeeds = true := by
  have leading : tree.leading.IsPaired := (Space.isGapTo_of_isEmpty unit.isEmpty false).paired
  have whole : AllWhole (tree.pieces .java) := Tree.allWhole_pieces unit.canonical leading
  have isJava : new.dialect = .java := by
    rw [← Tree.dialect_bare, regapped.bare, Tree.dialect_bare, dialect_of_isUnitOf unit]
  rw [Tree.printTrimmed, dialect_of_isUnitOf unit] at feeds
  obtain ⟨tokens, gaps⟩ := hasPairedFeeds_of_renderAll whole feeds
  rw [Tree.printTrimmed, isJava]
  refine hasPairedFeeds_renderAll ?_ (regapped.gaps .java gaps)
  rw [Tree.tokens_eq_of_bare regapped.bare]
  exact tokens

/--
A source whose line breaks are all carriage returns with line feeds is printed with no other line feeds when it is
formatted without overflow, unless the settings ask for other line breaks or for indented empty lines.
-/
theorem formatting_keepsPairedFeeds
    (unchanged : settings.bind (·.useCrlf) = none)
    (plain : (stylesUnder settings).indents.keepIndentsOnEmptyLines = false)
    (paired : source.hasPairedReturns = true)
    (feeds : source.hasPairedFeeds = true)
    (parsed : parse source path = .ok tree)
    (next : Nat)
    (fits : overflows (formatSourceUnit settings (tree.settle.run next).1) = false) :
    exists formatted, formatSourceUnit settings (tree.settle.run next).1 = .ok formatted ∧
      formatted.printTrimmed.hasPairedFeeds = true := by
  rw [Exact.formatSourceUnit_eq fits]
  obtain ⟨unit, printed⟩ := printTrimmed_settle paired parsed next
  obtain ⟨formatted, runs, regapped⟩ := runPasses_regap isGapRelation_keepsGapFeeds
    (fun _ member => passes_keepFeeds plain member) none .root (tree.settle.run next).1
  refine ⟨formatted, ?_, hasPairedFeeds_of_regapped unit (printed.symm ▸ feeds) regapped⟩
  have formats : Exact.formatWith settings none .root (tree.settle.run next).1 = .ok formatted := by
    rw [Exact.formatWith, Exact.autoFormat, enclosingStyles_of_isUnitOf unit]
    exact runs
  rw [Exact.formatSourceUnit, formats, unchanged]
  rfl

/-- Two statements with an empty line between them, which settings ask to leave out. -/
theorem formatting_keepsPairedFeeds_of_statements :
    Text.hasPairedReturns "a;\r\n\r\nb;".toList = true ∧ Text.hasPairedFeeds "a;\r\n\r\nb;".toList = true ∧
      exists tree formatted, parse "a;\r\n\r\nb;".toList ⟨"A.java".toList⟩ = .ok tree ∧
        formatSourceUnit (some { keepMaximumBlankLines := some 0 }) (tree.settle.run 0).1 = .ok formatted ∧
        formatted.printTrimmed.hasPairedFeeds = true := by
  have paired : Text.hasPairedReturns "a;\r\n\r\nb;".toList = true := by decide +kernel
  have feeds : Text.hasPairedFeeds "a;\r\n\r\nb;".toList = true := by decide +kernel
  have fits : (parse "a;\r\n\r\nb;".toList ⟨"A.java".toList⟩).toOption.any (fun tree =>
      !overflows (formatSourceUnit (some { keepMaximumBlankLines := some 0 }) (tree.settle.run 0).1)) = true := by
    decide +kernel
  refine ⟨paired, feeds, ?_⟩
  generalize parsed : parse "a;\r\n\r\nb;".toList ⟨"A.java".toList⟩ = outcome at fits
  cases outcome with
  | error => cases fits
  | ok tree =>
      obtain ⟨formatted, runs, printed⟩ :=
        formatting_keepsPairedFeeds rfl rfl paired feeds parsed 0 (by simpa [Except.toOption] using fits)
      exact ⟨tree, formatted, rfl, runs, printed⟩

end Sources

end Format
end Lossless
