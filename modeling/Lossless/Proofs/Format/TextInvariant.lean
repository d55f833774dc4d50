import Lossless.Proofs.Format.Comments
import Lossless.Proofs.Format.Safe

/-!
# Properties of texts that formatting keeps

The passes of a formatting run make the texts of a space from its old ones by a few operations. A property of texts that
these operations keep is one of all texts in the gaps after the run, when it was one of all texts in the gaps before.
-/

namespace Lossless

/-- The whitespace of the space has the property, and so have the texts of its comments and what stands behind them. -/
def Space.AllTexts
    (holds : Text -> Prop)
    (space : Space) : Prop :=
  holds space.whitespace ∧ forall comment, comment ∈ space.comments -> holds comment.text ∧ holds comment.suffix

namespace Format

open Java Text

/-- The operations of a formatting run keep the property. -/
structure IsTextInvariant
    (style : IndentStyle)
    (holds : Text -> Prop) : Prop where
  empty : holds []
  blank : holds [' ']
  append {front rest : Text} : holds front -> holds rest -> holds (front ++ rest)
  keepMaximumBreaks (breaks : Nat) {text : Text} : holds text -> holds (keepMaximumBreaks breaks text)
  shiftWhitespace (column : Nat) {text : Text} : holds text -> holds (shiftWhitespace style column text)
  shiftCommentBody (source target : Nat) {text : Text} : holds text -> holds (shiftCommentBody source target text)
  retab {text : Text} : holds text -> holds (Exact.retab style text)
  onlyLineBreaks {text : Text} : holds text -> holds (onlyLineBreaks text)
  stripTrailing {text : Text} : holds text -> holds (stripTrailing text)
  shiftLines (target : Space) {text : Text} :
    holds target.whitespace -> holds text -> holds (shiftLines (commonMargin target) text)

section Invariants

variable {style : IndentStyle} {holds : Text -> Prop} {space : Space}

/-! ## Spaces -/

theorem Rewritten.allTexts
    {old new : Space}
    (rewritten : Rewritten (fun old new => holds old -> holds new) (fun old new => holds old -> holds new) old new)
    (all : old.AllTexts holds) :
    new.AllTexts holds := by
  refine ⟨rewritten.leading all.1, fun comment member => ?_⟩
  obtain ⟨before, among, related⟩ := exists_of_forall₂ rewritten.comments member
  obtain ⟨text, suffix⟩ := all.2 before among
  refine ⟨?_, related.suffix suffix⟩
  cases isBlock : before.isBlock with
  | true => exact related.body isBlock text
  | false =>
      rw [related.line isBlock]
      exact text

theorem allTexts_mapWhitespace
    {change : Text -> Text}
    (keeps : forall text, holds text -> holds (change text))
    (all : space.AllTexts holds) :
    (space.mapWhitespace change).AllTexts holds :=
  Rewritten.allTexts (mapWhitespace_rewrites keeps (fun _ => id) space) all

theorem allTexts_withLastSuffix
    {suffix : Text}
    {comments : List Comment}
    (all : forall comment, comment ∈ comments -> holds comment.text ∧ holds comment.suffix)
    (isSuffix : holds suffix) :
    forall comment, comment ∈ Space.withLastSuffix suffix comments -> holds comment.text ∧ holds comment.suffix := by
  induction comments with
  | nil => nofun
  | cons first rest ih =>
      obtain ⟨here, later⟩ := List.forall_mem_cons.1 all
      cases rest with
      | nil => exact List.forall_mem_singleton.2 ⟨here.1, isSuffix⟩
      | cons second more => exact List.forall_mem_cons.2 ⟨here, ih later⟩

theorem holds_lastWhitespace (all : space.AllTexts holds) : holds space.lastWhitespace := by
  unfold Space.lastWhitespace
  split
  · next last found => exact (all.2 last (List.mem_of_getLast? found)).2
  · exact all.1

namespace IsTextInvariant

variable (invariant : IsTextInvariant style holds)
include invariant

theorem allTexts_empty : Space.empty.AllTexts holds :=
  ⟨invariant.empty, nofun⟩

theorem allTexts_withoutWhitespace (all : space.AllTexts holds) : (space.withWhitespace []).AllTexts holds := by
  refine ⟨?_, ?_⟩
  · rw [whitespace_withWhitespace]
    exact invariant.empty
  · rw [comments_withWhitespace]
    exact all.2

theorem allTexts_indentTo
    (column : Nat)
    (space : Space)
    (all : space.AllTexts holds) :
    (Exact.indentTo style column space).AllTexts holds := by
  have rewritten : Rewritten (fun old new => holds old -> holds new) (fun old new => holds old -> holds new)
      space (Exact.indentTo style column space) :=
    indentTo_rewrites (fun _ => ⟨id, invariant.shiftWhitespace column⟩)
      (fun _ => ⟨id, fun source => invariant.shiftCommentBody source column⟩) space
  exact rewritten.allTexts all

theorem allTexts_updateSpace
    (wanted : Bool)
    (all : space.AllTexts holds) :
    (updateSpace wanted space).AllTexts holds := by
  rcases updateSpace_cases wanted space with same | ⟨-, same⟩
  · rwa [same]
  · rw [same]
    cases wanted with
    | true => exact ⟨invariant.blank, nofun⟩
    | false => exact invariant.allTexts_empty

theorem shiftComment
    {target : Space}
    {comment : Comment}
    (margin : holds target.whitespace)
    (all : holds comment.text ∧ holds comment.suffix) :
    holds (shiftComment (commonMargin target) comment).text ∧
      holds (shiftComment (commonMargin target) comment).suffix := by
  refine ⟨?_, invariant.shiftLines target margin all.2⟩
  unfold Format.shiftComment
  dsimp only
  split
  · exact invariant.shiftLines target margin all.1
  · exact all.1

/-- A space that is hoisted behind another one is shifted by the margin of that one. -/
theorem allTexts_concatenate
    {target moved : Space}
    (all : target.AllTexts holds)
    (allMoved : moved.AllTexts holds) :
    (concatenate (commonMargin target) target moved).AllTexts holds := by
  have shifted : forall comment, comment ∈ moved.comments.map (Format.shiftComment (commonMargin target)) ->
      holds comment.text ∧ holds comment.suffix :=
    List.forall_mem_map.2 fun comment member => invariant.shiftComment all.1 (allMoved.2 comment member)
  unfold concatenate
  split
  · refine ⟨?_, ?_⟩
    · rw [Space.whitespace_build]
      exact invariant.append all.1 allMoved.1
    · rw [Space.comments_build]
      exact shifted
  · refine ⟨?_, ?_⟩
    · rw [Space.whitespace_build]
      exact all.1
    · rw [Space.comments_build]
      have last := invariant.append (holds_lastWhitespace all) allMoved.1
      exact List.forall_mem_append.2 ⟨allTexts_withLastSuffix all.2 last, shifted⟩

theorem allTexts_strip
    (place : SpacePlace)
    (all : space.AllTexts holds) :
    Space.AllTexts holds
      (if place = .compilationUnitPrefix && space.comments = [] then .empty
      else if place = .compilationUnitEof then space.mapWhitespace Format.onlyLineBreaks
      else space.mapWhitespace Format.stripTrailing) := by
  split
  · exact invariant.allTexts_empty
  · split
    · exact allTexts_mapWhitespace (fun _ => invariant.onlyLineBreaks) all
    · exact allTexts_mapWhitespace (fun _ => invariant.stripTrailing) all

/-! ## Passes -/

theorem normalizeFormat_regaps : normalizeFormat.Regaps (KeepsAll (Space.AllTexts holds)) := by
  intro stopAfter parent tree
  have anyMargins : HasMargins (fun _ => True) tree := fun _ _ _ => trivial
  refine Format.normalizeFormat_regaps (isGapRelation_keepsAll _) (fun _ _ target moved _ => ?_) anyMargins stopAfter parent
  intro all
  obtain ⟨atTarget, atMoved⟩ := List.forall_mem_cons.1 all
  have hoisted := invariant.allTexts_concatenate atTarget (atMoved _ List.mem_cons_self)
  exact List.forall_mem_cons.2 ⟨hoisted, List.forall_mem_singleton.2 invariant.allTexts_empty⟩

end IsTextInvariant

/-- Every pass of a formatting run keeps the property in all texts of the gaps. -/
theorem IsTextInvariant.passes_regap
    {styles : Styles}
    {pass : Pass}
    (invariant : IsTextInvariant styles.indents holds)
    (member : pass ∈ Exact.passes styles) :
    pass.Regaps (KeepsAll (Space.AllTexts holds)) := by
  have relation := isGapRelation_keepsAll (Space.AllTexts holds)
  simp only [Exact.passes, List.mem_append, List.mem_cons, List.not_mem_nil, or_false] at member
  rcases member with (rfl | rfl | rfl | rfl | rfl) | last
  · exact invariant.normalizeFormat_regaps
  · exact ofSpaces_regaps relation fun _ _ =>
      gapOf_keepsAll (allTexts_mapWhitespace fun _ => invariant.keepMaximumBreaks _)
  · exact spaces_regaps relation (fun _ wanted _ => gapOf_keepsAll (invariant.allTexts_updateSpace wanted)) _
  · exact tabsAndIndents_regaps relation
      (gapOf_moved (fun _ => invariant.allTexts_withoutWhitespace) invariant.allTexts_indentTo)
  · exact ofSpaces_regaps relation fun _ _ => gapOf_keepsAll (allTexts_mapWhitespace fun _ => invariant.retab)
  · split at last
    · cases last
    · obtain rfl := List.mem_singleton.1 last
      exact ofSpaces_regaps relation fun place _ => gapOf_keepsAll (invariant.allTexts_strip place)

end Invariants

/-! ## Characters -/

section Characters

variable {test : Char -> Bool} {style : IndentStyle} {text : Text}

/-- A line with other indentation brings in blanks alone. -/
theorem SameBehindIndent.all
    {old new : Text}
    (same : SameBehindIndent old new)
    (indents : forall char, isIndent char = true -> test char = true)
    (all : old.all test = true) :
    new.all test = true := by
  obtain ⟨front, frontNew, common, -, allIndentNew, rfl, rfl⟩ := same
  rw [List.all_append, Bool.and_eq_true] at all ⊢
  refine ⟨List.all_eq_true.2 fun char member => indents char ?_, all.2⟩
  exact List.all_eq_true.1 allIndentNew char member

theorem all_mapContinuations
    {change : Text -> Text}
    (feed : test '\n' = true)
    (indents : forall char, isIndent char = true -> test char = true)
    (same : forall line, SameBehindIndent line (change line))
    (all : text.all test = true) :
    (mapContinuations change text).all test = true := by
  obtain ⟨lines, last, has⟩ := exists_hasLines text
  cases lines with
  | nil => rwa [mapContinuations_of_notMem fun inside => has.mem_iff.1 inside rfl]
  | cons first rest =>
      have hasNew := has.mapContinuations fun line absent => (same line).notMem rfl absent
      obtain ⟨front, atLast⟩ := (has.all_iff feed).1 all
      obtain ⟨here, later⟩ := List.forall_mem_cons.1 front
      refine (hasNew.all_iff feed).2 ⟨List.forall_mem_cons.2 ⟨here, ?_⟩, (same last).all indents atLast⟩
      exact List.forall_mem_map.2 fun line member => (same line).all indents (later line member)

theorem all_shiftWhitespace
    (feed : test '\n' = true)
    (indents : forall char, isIndent char = true -> test char = true)
    (column : Nat)
    (all : text.all test = true) :
    (shiftWhitespace style column text).all test = true := by
  have indentation : (indentString style column).all test = true :=
    List.all_eq_true.2 fun char member => indents char (isIndent_of_mem_indentString member)
  obtain ⟨lines, last, has⟩ := exists_hasLines text
  cases lines with
  | nil => rwa [shiftWhitespace_of_notMem style column fun inside => has.mem_iff.1 inside rfl]
  | cons first rest =>
      obtain ⟨here, later⟩ := List.forall_mem_cons.1 ((has.all_iff feed).1 all).1
      refine ((hasLines_shiftWhitespace style column has).all_iff feed).2 ⟨List.forall_mem_cons.2 ⟨here, ?_⟩, indentation⟩
      split
      · exact List.forall_mem_map.2 fun _ _ => indentation
      · exact later

theorem mem_of_containsCrlf (found : containsCrlf text = true) : '\r' ∈ text := by
  induction text with
  | nil => cases found
  | cons first rest ih =>
      unfold containsCrlf at found
      split at found
      · next same =>
          rw [same]
          exact List.mem_cons_self
      · next same =>
          obtain ⟨-, rfl⟩ := List.cons.inj same
          exact List.mem_cons_of_mem first (ih found)
      · cases found

/-- Returns are brought in only where there are some. -/
theorem all_keepMaximumBreaks
    (feed : test '\n' = true)
    (breaks : Nat)
    (all : text.all test = true) :
    (keepMaximumBreaks breaks text).all test = true := by
  have mem := List.all_eq_true.1 all
  have newLine : (if containsCrlf text then ['\r', '\n'] else ['\n']).all test = true := by
    split
    · next found => simp [feed, mem '\r' (mem_of_containsCrlf found)]
    · simp [feed]
  obtain ⟨lines, last, has⟩ := exists_hasLines text
  unfold keepMaximumBreaks
  dsimp only
  split
  · exact all
  · rw [has.afterLast_eq, List.all_append, List.all_append, Bool.and_eq_true, Bool.and_eq_true]
    refine ⟨⟨List.all_eq_true.2 fun char member => mem char (List.takeWhile_subset _ member), ?_⟩,
      ((has.all_iff feed).1 all).2⟩
    rw [List.all_flatten]
    exact List.all_eq_true.2 fun part member => (List.eq_of_mem_replicate member).symm ▸ newLine

theorem all_filter
    (kept : Char -> Bool)
    (all : text.all test = true) :
    (text.filter kept).all test = true :=
  List.all_eq_true.2 fun char member => List.all_eq_true.1 all char (List.mem_filter.1 member).1

theorem all_stripTrailing
    (feed : test '\n' = true)
    (all : text.all test = true) :
    (stripTrailing text).all test = true := by
  obtain ⟨lines, last, has⟩ := exists_hasLines text
  obtain ⟨front, atLast⟩ := (has.all_iff feed).1 all
  refine ((hasLines_stripTrailing has).all_iff feed).2 ⟨?_, atLast⟩
  exact List.forall_mem_map.2 fun line member => all_filter isBreak (front line member)

/-- A margin is the last line of the whitespace that it stands in, if there are others. -/
theorem commonMargin_eq
    {target : Space}
    {lines : List Text}
    {last : Text}
    (has : HasLines target.whitespace lines last) :
    commonMargin target = if lines = [] then [] else last := by
  rw [commonMargin, has.splitLast?_eq]
  by_cases single : lines = []
  · rw [if_pos single, if_pos single]
  · rw [if_neg single, if_neg single]

theorem all_commonMargin
    {target : Space}
    (feed : test '\n' = true)
    (all : target.whitespace.all test = true) :
    (commonMargin target).all test = true := by
  obtain ⟨lines, last, has⟩ := exists_hasLines target.whitespace
  rw [commonMargin_eq has]
  split
  · rfl
  · exact ((has.all_iff feed).1 all).2

theorem all_shiftLines
    {margin : Text}
    (feed : test '\n' = true)
    (atMargin : margin.all test = true)
    (all : text.all test = true) :
    (shiftLines margin text).all test = true := by
  refine List.all_eq_true.2 fun char member => ?_
  obtain ⟨old, isOld, inside⟩ := List.mem_flatMap.1 member
  split at inside
  · rcases List.mem_cons.1 inside with rfl | inMargin
    · exact feed
    · exact List.all_eq_true.1 atMargin char inMargin
  · rw [List.mem_singleton.1 inside]
    exact List.all_eq_true.1 all old isOld

/-- Formatting brings in no characters but blanks and line feeds. -/
theorem isTextInvariant_all
    (feed : test '\n' = true)
    (indents : forall char, isIndent char = true -> test char = true) :
    IsTextInvariant style (fun text => text.all test = true) where
  empty := rfl
  blank := by simp [indents ' ' rfl]
  append := fun front rest => by rw [List.all_append, front, rest]; rfl
  keepMaximumBreaks := fun breaks _ => all_keepMaximumBreaks feed breaks
  shiftWhitespace := fun column _ => all_shiftWhitespace feed indents column
  shiftCommentBody := fun source target text all => by
    rcases shiftCommentBody_eq source target text with same | moved
    · rwa [same]
    · rw [moved]
      exact all_mapContinuations feed indents (sameBehindIndent_shiftCommentLine source target) all
  retab := all_mapContinuations feed indents (sameBehindIndent_retabLine style)
  onlyLineBreaks := all_filter isBreak
  stripTrailing := all_stripTrailing feed
  shiftLines := fun _ _ margin => all_shiftLines feed (all_commonMargin feed margin)

end Characters

end Format
end Lossless
