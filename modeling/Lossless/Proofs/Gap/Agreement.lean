import Lossless.Proofs.Gap.Closed
import Lossless.Proofs.Parser.Outcome

/-!
# The scanner and the splitter

Two procedures decide where a comment ends. The scanner of a grammar ends a line comment at a line feed;
`Space.format`, which splits the run that the scanner has read, ends it at a carriage return as well. They
agree on a run exactly when no line comment in it holds a carriage return before its last character, and
so on every run of a text whose line breaks are `\n` and `\r\n`.
-/

namespace Lossless

/-- Comments with their suffixes, written one after the other. -/
def Comment.renderAll (comments : List Comment) : Text :=
  comments.flatMap fun comment => comment.render .slash ++ comment.suffix

@[simp] theorem Comment.renderAll_nil : Comment.renderAll [] = [] := rfl

@[simp] theorem Comment.renderAll_cons
    (comment : Comment)
    (rest : List Comment) :
    Comment.renderAll (comment :: rest) =
      comment.render .slash ++ comment.suffix ++ Comment.renderAll rest := by
  simp [Comment.renderAll]

theorem Space.render_slash (space : Space) :
    space.render .slash = space.whitespace ++ Comment.renderAll space.comments := rfl

/-- Whitespace and comments that make up a run and hold the comments that were passed over. -/
structure AgreesWith
    (whitespace : Text)
    (comments : List Comment)
    (final : Bool)
    (run : Text)
    (skipped : List SkippedComment) : Prop where
  blank : whitespace.all Text.isBlank = true
  closed : Comment.AllClosed final comments
  written : whitespace ++ Comment.renderAll comments = run
  kept : comments.map Comment.skipped = skipped.map SkippedComment.trimmed

namespace AgreesWith

variable {whitespace text suffix run : Text} {comments : List Comment}
variable {skipped : List SkippedComment} {final : Bool}

/-- A blank goes to the whitespace before the first comment. -/
theorem cons_blank
    {first : Char}
    (blank : Text.isBlank first = true)
    (agrees : AgreesWith whitespace comments final run skipped) :
    AgreesWith (first :: whitespace) comments final (first :: run) skipped where
  blank := by simpa [blank] using agrees.blank
  closed := agrees.closed
  written := by simp [agrees.written]
  kept := agrees.kept

/-- What agrees behind a comment agrees with the comment in front of it. -/
theorem cons_comment
    {isBlock : Bool}
    {passed : Text}
    (agrees : AgreesWith suffix comments final run skipped)
    (contained : (Comment.build isBlock text suffix).isContained = true)
    (ended : (Comment.build isBlock text suffix).isEnded = true ∨
      (final && comments.isEmpty) = true ∧ (suffix = [] ∨ suffix = ['\r']))
    (kept : ⟨isBlock, text⟩ = SkippedComment.trimmed ⟨isBlock, passed⟩) :
    AgreesWith [] (.build isBlock text suffix :: comments) final
      ((Comment.build isBlock text suffix).render .slash ++ run)
      (⟨isBlock, passed⟩ :: skipped) where
  blank := rfl
  closed := ⟨⟨agrees.blank, rfl, contained, ended⟩, agrees.closed⟩
  written := by simp [← agrees.written, Comment.build]
  kept := by
    rw [List.map_cons, List.map_cons, agrees.kept, ← kept]
    rfl

end AgreesWith

/-- The two halves of a split, as whitespace and comments that make up a run. -/
abbrev SplitAgrees
    (final : Bool)
    (run : Text)
    (skipped : List SkippedComment) : Prop :=
  AgreesWith (Space.splitGap .slash run).1 (Space.splitGap .slash run).2 final run skipped

section Split

variable {text run after : Text}

/-- One more character of a line comment that does not end it. -/
theorem splitAgrees_line_cons
    {first : Char}
    {passed rest : Text}
    {more : List SkippedComment}
    {final : Bool}
    (noFeed : first ≠ '\n')
    (noReturn : first ≠ '\r')
    (agrees : SplitAgrees final ('/' :: '/' :: rest) (⟨false, passed⟩ :: more)) :
    SplitAgrees final ('/' :: '/' :: first :: rest) (⟨false, first :: passed⟩ :: more) := by
  obtain ⟨blank, ⟨⟨suffixBlank, unmarked, contained, ended⟩, closed⟩, written, kept⟩ := agrees
  rw [SplitAgrees, Space.splitGap_line, Space.splitLine_cons noFeed noReturn]
  refine ⟨rfl, ⟨⟨suffixBlank, unmarked, ?_, ended⟩, closed⟩, ?_, ?_⟩
  · simpa [Comment.isContained, Comment.build, Text.hasNoBreak, noFeed, noReturn] using contained
  · simpa [Space.splitGap_line, Comment.build, Comment.render] using written
  · simpa [Space.splitGap_line, Comment.build, Comment.skipped, SkippedComment.trimmed,
      Text.withoutFinalReturn_cons noReturn] using kept

/-- One more character of a block comment that does not end it. -/
theorem splitAgrees_block_cons
    {first : Char}
    {passed rest : Text}
    {more : List SkippedComment}
    {final : Bool}
    (inside : Text.startsClosing (first :: rest) = false)
    (agrees : SplitAgrees final ('/' :: '*' :: rest) (⟨true, passed⟩ :: more)) :
    SplitAgrees final ('/' :: '*' :: first :: rest) (⟨true, first :: passed⟩ :: more) := by
  obtain ⟨blank, ⟨⟨suffixBlank, unmarked, contained, ended⟩, closed⟩, written, kept⟩ := agrees
  rw [SplitAgrees, Space.splitGap_block, Space.splitBlock_cons inside]
  rw [Space.splitGap_block] at written kept
  refine ⟨rfl, ⟨⟨suffixBlank, unmarked, ?_, Or.inl rfl⟩, closed⟩, ?_, ?_⟩
  · have whole := Space.hasNoClosing_splitBlock (first :: rest)
    rwa [Space.splitBlock_cons inside] at whole
  · simpa [Comment.build, Comment.render] using written
  · simpa [Comment.build, Comment.skipped, SkippedComment.trimmed] using kept

/-- What is scanned from here on is split as it was scanned. -/
def AgreesOutside (text : Text) : Prop :=
  forall run after, scanGap text = .ok (run, after) ->
    (forall comment, comment ∈ skippedInGap text -> comment.endsAtReturn) ->
      SplitAgrees after.isEmpty run (skippedInGap text)

/-- What is scanned from here on, inside a line comment, is split as it was scanned. -/
def AgreesInLine (text : Text) : Prop :=
  forall run after, scanLine text = .ok (run, after) ->
    SkippedComment.endsAtReturn ⟨false, (skippedInLine text).1⟩ ->
    (forall comment, comment ∈ (skippedInLine text).2 -> comment.endsAtReturn) ->
      SplitAgrees after.isEmpty ('/' :: '/' :: run)
        (⟨false, (skippedInLine text).1⟩ :: (skippedInLine text).2)

/-- What is scanned from here on, inside a block comment, is split as it was scanned. -/
def AgreesInBlock (text : Text) : Prop :=
  forall opened run after, scanBlock opened text = .ok (run, after) ->
    (forall comment, comment ∈ (skippedInBlock text).2 -> comment.endsAtReturn) ->
      SplitAgrees after.isEmpty ('/' :: '*' :: run)
        (⟨true, (skippedInBlock text).1⟩ :: (skippedInBlock text).2)

/-- Outside comments a scan goes on after a blank and stops at anything else. -/
theorem agreesOutside_step
    {first : Char}
    {rest : Text}
    (plain : Text.startsComment (first :: rest) = false)
    (outside : Text.isBlank first = true -> AgreesOutside rest) :
    AgreesOutside (first :: rest) := by
  intro run after scanned ends
  cases blank : Text.isBlank first with
  | true =>
      rw [skippedInGap_of_isBlank blank] at ends ⊢
      obtain ⟨inner, scannedRest, rfl⟩ := (scanGap_of_isBlank blank).1 scanned
      have agrees := outside blank inner after scannedRest ends
      rw [SplitAgrees, Space.splitGap_cons (Text.startsComment_of_isBlank blank inner)]
      exact agrees.cons_blank blank
  | false =>
      rw [scanGap_of_solid plain blank] at scanned
      obtain ⟨rfl, rfl⟩ : [] = run ∧ first :: rest = after := by simpa using scanned
      rw [skippedInGap_of_solid plain blank]
      exact ⟨rfl, trivial, rfl, rfl⟩

/-- A line comment starts outside comments. -/
theorem agreesOutside_line
    {body : Text}
    (inLine : AgreesInLine body) :
    AgreesOutside ('/' :: '/' :: body) := by
  intro run after scanned ends
  rw [skippedInGap_line] at ends ⊢
  obtain ⟨inner, scannedBody, rfl⟩ := scanGap_line_eq_ok.1 scanned
  refine inLine inner after scannedBody (ends _ (List.mem_cons_self ..)) ?_
  exact fun comment member => ends comment (List.mem_cons_of_mem _ member)

/-- A block comment starts outside comments. -/
theorem agreesOutside_block
    {body : Text}
    (inBlock : AgreesInBlock body) :
    AgreesOutside ('/' :: '*' :: body) := by
  intro run after scanned ends
  rw [skippedInGap_block] at ends ⊢
  obtain ⟨inner, scannedBody, rfl⟩ := scanGap_block_eq_ok.1 scanned
  refine inBlock _ inner after scannedBody ?_
  exact fun comment member => ends comment (List.mem_cons_of_mem _ member)

/-- A line comment ends at a line feed. -/
theorem agreesInLine_break
    {rest : Text}
    (outside : AgreesOutside rest) :
    AgreesInLine ('\n' :: rest) := by
  intro run after scanned _ ends
  obtain ⟨inner, scannedRest, rfl⟩ := scanLine_break_eq_ok.1 scanned
  have blank : Text.isBlank '\n' = true := by decide
  have agrees := (outside inner after scannedRest ends).cons_blank blank
  exact agrees.cons_comment rfl (Or.inl rfl) rfl

/-- A carriage return before a line feed goes to the line break. -/
theorem splitAgrees_return
    {rest : Text}
    {more : List SkippedComment}
    {final : Bool}
    (agrees : SplitAgrees final ('/' :: '/' :: '\n' :: rest) (⟨false, []⟩ :: more)) :
    SplitAgrees final ('/' :: '/' :: '\r' :: '\n' :: rest) (⟨false, ['\r']⟩ :: more) := by
  obtain ⟨-, ⟨⟨suffixBlank, -, -, -⟩, closed⟩, written, kept⟩ := agrees
  have blank : Text.isBlank '\r' = true := by decide
  refine ⟨rfl, ⟨⟨?_, rfl, rfl, Or.inl rfl⟩, closed⟩, ?_, kept⟩
  · change (Text.isBlank '\r' && _) = true
    rw [blank, Bool.true_and]
    exact suffixBlank
  · have body := (List.cons.inj (List.cons.inj written).2).2
    exact congrArg (fun body => '/' :: '/' :: '\r' :: body) body

/-- A line comment ends at a carriage return with a line feed after it, or with the text after it. -/
theorem agreesInLine_return
    {rest : Text}
    (inLine : AgreesInLine rest) :
    AgreesInLine ('\r' :: rest) := by
  intro run after scanned ends more
  have other : '\r' ≠ '\n' := by decide
  rw [skippedInLine_cons other] at ends more ⊢
  obtain ⟨inner, scannedRest, rfl⟩ := (scanLine_eq_ok other).1 scanned
  have nothing : (skippedInLine rest).1 = [] := Text.eq_nil_of_return_notMem (ends rfl)
  rw [nothing]
  cases rest with
  | nil =>
      obtain ⟨rfl, rfl⟩ : [] = inner ∧ [] = after := by simpa using scannedRest
      exact ⟨rfl, ⟨⟨rfl, rfl, rfl, Or.inr ⟨rfl, Or.inr rfl⟩⟩, trivial⟩, rfl, rfl⟩
  | cons next tail =>
      have breaks : next = '\n' := by
        refine Classical.byContradiction fun next_ne => ?_
        simp [skippedInLine_cons next_ne] at nothing
      subst breaks
      obtain ⟨innermost, -, rfl⟩ := scanLine_break_eq_ok.1 scannedRest
      exact splitAgrees_return (inLine _ after scannedRest (fun _ => List.not_mem_nil) more)

/-- One more character inside a line comment. -/
theorem agreesInLine_step
    {first : Char}
    {rest : Text}
    (noFeed : first ≠ '\n')
    (inLine : AgreesInLine rest) :
    AgreesInLine (first :: rest) := by
  by_cases isReturn : first = '\r'
  · subst isReturn
    exact agreesInLine_return inLine
  · intro run after scanned ends more
    rw [skippedInLine_cons noFeed] at ends more ⊢
    obtain ⟨inner, scannedRest, rfl⟩ := (scanLine_eq_ok noFeed).1 scanned
    refine splitAgrees_line_cons noFeed isReturn (inLine inner after scannedRest ?_ more)
    intro isLine present
    refine ends isLine ?_
    simp only [SkippedComment.trimmed, Bool.false_eq_true, if_false] at present ⊢
    rw [Text.withoutFinalReturn_cons isReturn]
    exact List.mem_cons_of_mem _ present

/-- A block comment ends at its closing delimiter. -/
theorem agreesInBlock_close
    {rest : Text}
    (outside : AgreesOutside rest) :
    AgreesInBlock ('*' :: '/' :: rest) := by
  intro opened run after scanned ends
  obtain ⟨inner, scannedRest, rfl⟩ := scanBlock_close_eq_ok.1 scanned
  exact (outside inner after scannedRest ends).cons_comment rfl (Or.inl rfl) rfl

/-- One more character inside a block comment. -/
theorem agreesInBlock_step
    {first : Char}
    {rest : Text}
    (inside : Text.startsClosing (first :: rest) = false)
    (inBlock : AgreesInBlock rest) :
    AgreesInBlock (first :: rest) := by
  intro opened run after scanned ends
  rw [skippedInBlock_cons inside] at ends ⊢
  obtain ⟨inner, scannedRest, rfl⟩ := (scanBlock_eq_ok inside).1 scanned
  refine splitAgrees_block_cons ?_ (inBlock opened inner after scannedRest ends)
  refine Bool.eq_false_iff.2 fun closing => ?_
  obtain ⟨tail, rfl, rfl⟩ := Text.startsClosing_iff.1 closing
  rw [eq_append_of_scanBlock scannedRest] at inside
  simp [Text.startsClosing] at inside

/-- Where no line comment holds an inner carriage return, a run is split as it was scanned. -/
theorem splitAgrees_of_scanGap
    (scanned : scanGap text = .ok (run, after))
    (ends : forall comment, comment ∈ skippedInGap text -> comment.endsAtReturn) :
    SplitAgrees after.isEmpty run (skippedInGap text) := by
  have all : (forall text, AgreesOutside text) ∧ (forall text, AgreesInLine text) ∧
      forall text, AgreesInBlock text := by
    apply gap_induction
    case atEnd =>
      intro run after scanned _
      obtain ⟨rfl, rfl⟩ : [] = run ∧ [] = after := by simpa using scanned
      exact ⟨rfl, trivial, rfl, rfl⟩
    case lineOpens => exact fun body => agreesOutside_line
    case blockOpens => exact fun body => agreesOutside_block
    case step => exact fun first rest => agreesOutside_step
    case lineAtEnd =>
      intro run after scanned _ _
      obtain ⟨rfl, rfl⟩ : [] = run ∧ [] = after := by simpa using scanned
      exact ⟨rfl, ⟨⟨rfl, rfl, rfl, Or.inr ⟨rfl, Or.inl rfl⟩⟩, trivial⟩, rfl, rfl⟩
    case lineBreaks => exact fun rest => agreesInLine_break
    case lineStep => exact fun first rest => agreesInLine_step
    case blockAtEnd =>
      intro opened run after scanned
      simp at scanned
    case blockCloses => exact fun rest => agreesInBlock_close
    case blockStep => exact fun first rest => agreesInBlock_step
  exact all.1 text run after scanned ends

/-- In a text with paired returns, every line comment that is passed over ends at its return. -/
theorem endsAtReturn_of_hasPairedReturns
    {comment : SkippedComment}
    (paired : text.hasPairedReturns = true)
    (member : comment ∈ skippedInGap text) :
    comment.endsAtReturn := by
  have all : (forall text : Text, text.hasPairedReturns = true ->
        forall comment, comment ∈ skippedInGap text -> comment.endsAtReturn) ∧
      (forall text : Text, text.hasPairedReturns = true ->
        '\r' ∉ (skippedInLine text).1.withoutFinalReturn ∧
          forall comment, comment ∈ (skippedInLine text).2 -> comment.endsAtReturn) ∧
      forall text : Text, text.hasPairedReturns = true ->
        forall comment, comment ∈ (skippedInBlock text).2 -> comment.endsAtReturn := by
    apply gap_induction
    case atEnd => simp
    case lineOpens =>
      intro body ih paired comment member
      have inside := ih (Text.hasPairedReturns_tail (Text.hasPairedReturns_tail paired))
      rw [skippedInGap_line] at member
      rcases List.mem_cons.1 member with rfl | later
      · exact fun _ => inside.1
      · exact inside.2 comment later
    case blockOpens =>
      intro body ih paired comment member
      rw [skippedInGap_block] at member
      rcases List.mem_cons.1 member with rfl | later
      · exact fun isLine => by cases isLine
      · exact ih (Text.hasPairedReturns_tail (Text.hasPairedReturns_tail paired)) comment later
    case step =>
      intro first rest plain ih paired comment member
      cases blank : Text.isBlank first with
      | true =>
          rw [skippedInGap_of_isBlank blank] at member
          exact ih blank (Text.hasPairedReturns_tail paired) comment member
      | false =>
          rw [skippedInGap_of_solid plain blank] at member
          cases member
    case lineAtEnd => simp
    case lineBreaks =>
      intro rest ih paired
      exact ⟨List.not_mem_nil, ih (Text.hasPairedReturns_tail paired)⟩
    case lineStep =>
      intro first rest other ih paired
      have inside := ih (Text.hasPairedReturns_tail paired)
      rw [skippedInLine_cons other]
      refine ⟨?_, inside.2⟩
      by_cases isReturn : first = '\r'
      · subst isReturn
        obtain ⟨tail, rfl⟩ := Text.exists_feed_of_hasPairedReturns paired
        simp [Text.withoutFinalReturn]
      · rw [Text.withoutFinalReturn_cons isReturn]
        exact fun present => (List.mem_cons.1 present).elim (fun equal => isReturn equal.symm) inside.1
    case blockAtEnd => simp
    case blockCloses =>
      intro rest ih paired
      exact ih (Text.hasPairedReturns_tail (Text.hasPairedReturns_tail paired))
    case blockStep =>
      intro first rest inside ih paired
      rw [skippedInBlock_cons inside]
      exact ih (Text.hasPairedReturns_tail paired)
  exact all.1 text paired comment member

/-- Where a split holds the comments that were passed over, no line comment holds an inner return. -/
theorem endsAtReturn_of_kept
    {comments : List Comment}
    {skipped : List SkippedComment}
    (contained : forall comment, comment ∈ comments -> comment.isContained = true)
    (kept : comments.map Comment.skipped = skipped.map SkippedComment.trimmed) :
    forall comment, comment ∈ skipped -> comment.endsAtReturn := by
  intro comment member isLine present
  have trimmed : comment.trimmed ∈ comments.map Comment.skipped := by
    rw [kept]
    exact List.mem_map_of_mem member
  obtain ⟨split, splitMember, equal⟩ := List.mem_map.1 trimmed
  have line : split.isBlock = false := by
    have kind : split.isBlock = comment.trimmed.isBlock := congrArg SkippedComment.isBlock equal
    rw [kind, SkippedComment.trimmed, isLine]
    rfl
  have noBreak : split.text.hasNoBreak = true := by
    have inside := contained split splitMember
    rwa [Comment.isContained, line] at inside
  have text : split.text = comment.trimmed.text := congrArg SkippedComment.text equal
  rw [← text] at present
  have returnBreaks := List.all_eq_true.1 noBreak '\r' present
  simp at returnBreaks

end Split

/-! ## Gaps that a parser reads -/

namespace Parser

variable {text after : Text} {space : Space}

/--
A gap that a parser has read is blanks and the comments that were passed over, in the order of the text, exactly
when no line comment in it holds a carriage return before its end. A line comment is kept without the
carriage return of the line break after it.
-/
theorem gap_isSplit_iff_endsAtReturn
    (read : gap text = .ok (space, after)) :
    ∃ run, text = run ++ after ∧
      ((space.render .slash = run ∧
        space.comments.map Comment.skipped = (skippedInGap text).map SkippedComment.trimmed ∧
        space.whitespace.all Text.isBlank = true ∧
        forall comment, comment ∈ space.comments -> comment.suffix.all Text.isBlank = true) ↔
          forall comment, comment ∈ skippedInGap text -> comment.endsAtReturn) := by
  obtain ⟨run, scanned, rfl⟩ := gap_eq_ok.1 read
  refine ⟨run, eq_append_of_scanGap scanned, ?_, ?_⟩
  · rintro ⟨-, kept, -⟩
    refine endsAtReturn_of_kept ?_ kept
    simpa [Space.format, Space.formatWith] using Space.isContained_of_mem_splitGap run
  · intro ends
    have agrees := splitAgrees_of_scanGap scanned ends
    refine ⟨?_, ?_, ?_, ?_⟩
    · simpa [Space.render_slash, Space.format, Space.formatWith] using agrees.written
    · simpa [Space.format, Space.formatWith] using agrees.kept
    · simpa [Space.format, Space.formatWith] using agrees.blank
    · simpa [Space.format, Space.formatWith] using agrees.closed.suffix_blank

/-- A line comment before a line feed with a carriage return. -/
theorem gap_isSplit_before_return :
    ∃ space, gap "// a\r\nx".toList = .ok (space, ['x']) ∧
      ∃ run, "// a\r\nx".toList = run ++ ['x'] ∧
        ((space.render .slash = run ∧
          space.comments.map Comment.skipped =
            (skippedInGap "// a\r\nx".toList).map SkippedComment.trimmed ∧
          space.whitespace.all Text.isBlank = true ∧
          forall comment, comment ∈ space.comments -> comment.suffix.all Text.isBlank = true) ↔
            forall comment, comment ∈ skippedInGap "// a\r\nx".toList -> comment.endsAtReturn) :=
  ⟨.build [] [.build false [' ', 'a'] ['\r', '\n']], rfl, gap_isSplit_iff_endsAtReturn rfl⟩

end Parser
end Lossless
