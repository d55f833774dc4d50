import Lossless.Proofs.Java.FirstWord
import Lossless.Proofs.Java.Sound.Expression

/-!
# What is read as a statement

Every text with paired returns that is read as statements is read as canonical trees. A statement is read
together with what its neighbours depend on: the word that it starts with, and that no `else` comes after it
when it is left open.
-/

namespace Lossless
namespace Java

open Lossless.Parser
open Java.Parser

variable {text rest : Text} {leading : Space} {tree : Tree}

/-- The word behind the next gap. -/
def WordNext (text word : Text) : Prop :=
  ∃ run after, scanGap text = .ok (run, after) ∧ after.takeWhile Text.isIdentifierPart = word

theorem WordNext.eq
    {word other : Text}
    (here : WordNext text word)
    (also : WordNext text other) :
    word = other := by
  obtain ⟨run, after, scanned, rfl⟩ := here
  obtain ⟨otherRun, otherAfter, scannedAgain, rfl⟩ := also
  rw [scanned] at scannedAgain
  obtain ⟨-, rfl⟩ : run = otherRun ∧ after = otherAfter := by simpa using scannedAgain
  rfl

/-- A statement with its padding and its semicolon was read off the start of a text. -/
structure ReadsStatement
    (text : Text)
    (padded : RightPadded Tree)
    (rest : Text) : Prop where
  written : text = writtenStatement padded ++ rest
  fits : FitsStatement padded
  closes : Closes padded
  isGap : padded.after.IsGap
  part : padded.element.IsPart
  word : ∃ after, scanGap text = .ok (padded.element.leading.render .slash, after) ∧
    after.takeWhile Text.isIdentifierPart = padded.element.firstWord
  /-- No `else` comes after a statement that is left open. -/
  uncaptured : padded.element.endsOpen = true -> ¬WordNext rest "else".toList

/-- A parser reads statements. -/
def IsSoundStatement (statement : Parser (RightPadded Tree)) : Prop :=
  forall {text padded rest}, text.hasPairedReturns = true ->
    statement text = .ok (padded, rest) -> ReadsStatement text padded rest

theorem ReadsStatement.wordNext
    {padded : RightPadded Tree}
    (reads : ReadsStatement text padded rest) :
    WordNext text padded.element.firstWord := by
  obtain ⟨after, scanned, word⟩ := reads.word
  exact ⟨_, after, scanned, word⟩

/-- A statement that starts with a word is kept apart from a word before it. -/
theorem ReadsStatement.separates
    {padded : RightPadded Tree}
    (reads : ReadsStatement text padded rest)
    (outside : text.startsIn Text.isIdentifierPart = false)
    (startsWord : padded.element.startsWord = true) :
    padded.element.leading.isEmpty = false := by
  refine Bool.eq_false_iff.2 fun isEmpty => ?_
  obtain ⟨after, scanned, word⟩ := reads.word
  rw [(Space.render_eq_nil_iff _).2 isEmpty] at scanned
  obtain rfl : text = after := eq_append_of_scanGap scanned
  have noWord : ([] ++ text).takeWhile Text.isIdentifierPart = [] := Text.takeWhile_run rfl outside
  rw [List.nil_append, word] at noWord
  simp [Tree.startsWord, noWord] at startsWord

theorem ReadsStatement.paired
    {padded : RightPadded Tree}
    (reads : ReadsStatement text padded rest)
    (paired : text.hasPairedReturns = true) :
    rest.hasPairedReturns = true := by
  rw [reads.written] at paired
  exact Text.hasPairedReturns_of_append paired

/-! ## Sequences of statements -/

/-- Statements one after the other, as they are read. -/
structure ReadsStatements
    (text : Text)
    (statements : List (RightPadded Tree))
    (rest : Text) : Prop where
  written : text = writtenStatements statements ++ rest
  fits : FitStatements statements
  closes : forall padded, padded ∈ statements -> Closes padded
  gaps : forall padded, padded ∈ statements -> padded.after.IsGap
  parts : forall child, child ∈ RightPadded.elements statements -> child.IsPart
  word : forall padded, statements.head? = some padded -> WordNext text padded.element.firstWord

namespace ReadsStatements

theorem nil : ReadsStatements text [] text where
  written := rfl
  fits := ⟨by simp, rfl⟩
  closes := by simp
  gaps := by simp
  parts := by simp [RightPadded.elements]
  word := by simp

theorem cons
    {first : RightPadded Tree}
    {others : List (RightPadded Tree)}
    {middle : Text}
    (reads : ReadsStatement text first middle)
    (readsOthers : ReadsStatements middle others rest) :
    ReadsStatements text (first :: others) rest where
  written := by
    rw [reads.written, readsOthers.written]
    simp [writtenStatements]
  fits := by
    refine ⟨List.forall_mem_cons.2 ⟨reads.fits, readsOthers.fits.1⟩, ?_⟩
    cases others with
    | nil => rfl
    | cons second more =>
        rw [noneCaptured, readsOthers.fits.2, Bool.and_true, Bool.or_eq_true]
        cases open_ : first.element.endsOpen with
        | false => exact .inl rfl
        | true =>
            refine .inr (bne_iff_ne.2 fun isElse => ?_)
            have word := readsOthers.word second rfl
            rw [isElse] at word
            exact reads.uncaptured open_ word
  closes := List.forall_mem_cons.2 ⟨reads.closes, readsOthers.closes⟩
  gaps := List.forall_mem_cons.2 ⟨reads.isGap, readsOthers.gaps⟩
  parts := List.forall_mem_cons.2 ⟨reads.part, readsOthers.parts⟩
  word := by
    intro padded isFirst
    obtain rfl : first = padded := by simpa using isFirst
    exact reads.wordNext

end ReadsStatements

theorem blockStatements_sound
    {statement : Parser (RightPadded Tree)}
    (sound : IsSoundStatement statement)
    {bound : Nat}
    {statements : List (RightPadded Tree)}
    {closing : Space}
    (paired : text.hasPairedReturns = true)
    (read : blockStatements statement bound text = .ok ((statements, closing), rest)) :
    ReadsStatements text statements (closing.render .slash ++ '\x7d' :: rest) ∧ closing.IsGap := by
  induction bound generalizing text statements with
  | zero => simp [blockStatements] at read
  | succ bound ih =>
      unfold blockStatements at read
      simp only [bind_eq_ok, get_eq_ok] at read
      obtain ⟨_, _, ⟨rfl, rfl⟩, space, middle, readGap, isClosed, left, closed, read⟩ := read
      rcases accept_eq_ok.1 closed with ⟨rfl, rfl⟩ | ⟨rfl, -, rfl⟩
      · simp only [if_true, pure_eq_ok, Prod.mk.injEq] at read
        obtain ⟨⟨rfl, rfl⟩, rfl⟩ := read
        obtain ⟨rfl, -, -⟩ := gap_sound paired readGap
        exact ⟨.nil, isGap_of_gap paired readGap (by simp)⟩
      · simp only [Bool.false_eq_true, if_false, bind_eq_ok, get_eq_ok] at read
        obtain ⟨_, _, ⟨rfl, rfl⟩, read⟩ := read
        split at read
        · simp at read
        · simp only [bind_eq_ok, set_eq_ok, pure_eq_ok] at read
          obtain ⟨_, _, rfl, first, _, readFirst, ⟨others, space⟩, _, readOthers, equal, rfl⟩ := read
          obtain ⟨rfl, rfl⟩ := Prod.mk.inj equal
          have reads := sound paired readFirst
          obtain ⟨readsOthers, isGap⟩ := ih (reads.paired paired) readOthers
          exact ⟨.cons reads readsOthers, isGap⟩

theorem block_sound
    {statement : Parser (RightPadded Tree)}
    (sound : IsSoundStatement statement) :
    IsSound Form.isBlock (block statement) := by
  intro leading text tree rest paired read
  unfold block at read
  simp only [bind_eq_ok, get_eq_ok, pure_eq_ok] at read
  obtain ⟨_, body, opened, _, _, ⟨rfl, rfl⟩, ⟨statements, closing⟩, _, readStatements, rfl, rfl⟩ := read
  obtain rfl := expect_eq_ok.1 opened
  obtain ⟨reads, isGap⟩ :=
    blockStatements_sound sound (Text.hasPairedReturns_of_append paired) readStatements
  refine ⟨.spaced ?_ ?_, rfl⟩
  · rw [reads.written]
    simp
  · apply Tree.isCanonical_of_parts
    case fits => exact reads.fits
    case separates => exact reads.closes
    case gaps => exact List.forall_mem_cons.2 ⟨isGap, by simpa using reads.gaps⟩
    case eof => simp [Form.eof?]
    case parts => exact reads.parts

/-! ## Conditionals -/

/-- The body of an alternative, as it is read behind its keyword. -/
theorem isCanonical_otherwise
    {body : RightPadded Tree}
    (reads : ReadsStatement text body rest)
    (outside : text.startsIn Text.isIdentifierPart = false) :
    (Tree.spaced leading (.otherwise body)).IsCanonical := by
  apply Tree.isCanonical_of_parts
  case fits => exact reads.fits
  case separates => exact ⟨reads.closes, reads.separates outside⟩
  case gaps => simpa [Form.gaps] using reads.isGap
  case eof => simp [Form.eof?]
  case parts => simpa [Form.children] using reads.part

/-- A keyword that comes next is read off the front. -/
theorem keyword_of_isKeywordNext
    {keyword left : Text}
    (inside : keyword.all Text.isIdentifierPart = true)
    (word : text.takeWhile Text.isIdentifierPart = keyword)
    (read : expect keyword text = .ok ((), left)) :
    text = keyword ++ left ∧ left.startsIn Text.isIdentifierPart = false := by
  obtain rfl := expect_eq_ok.1 read
  obtain ⟨after, dropped, outside⟩ := (takeWhile_eq_keyword_iff inside).1 word
  rw [Text.dropStart?_append] at dropped
  obtain rfl : left = after := by simpa using dropped
  exact ⟨rfl, outside⟩

/-- The `else` part of a conditional, as it is read. -/
structure ReadsAlternative
    (text : Text)
    (tree : Tree)
    (rest : Text) : Prop where
  written : text = tree.written ++ rest
  isOtherwise : tree.form.isOtherwise = true
  part : tree.IsPart
  word : WordNext text "else".toList
  uncaptured : tree.endsOpen = true -> ¬WordNext rest "else".toList

theorem alternative_sound
    {statement : Parser (RightPadded Tree)}
    (sound : IsSoundStatement statement)
    {result : Option Tree}
    (paired : text.hasPairedReturns = true)
    (read : alternative statement text = .ok (result, rest)) :
    (result = none ∧ text = rest ∧ ¬WordNext text "else".toList) ∨
      ∃ tree, result = some tree ∧ ReadsAlternative text tree rest := by
  unfold alternative at read
  simp only [bind_eq_ok, get_eq_ok] at read
  obtain ⟨_, _, ⟨rfl, rfl⟩, leading, middle, readLeading, isElse, _, looked, read⟩ := read
  obtain ⟨elseIff, rfl⟩ := (isKeywordNext_eq_ok (by decide)).1 looked
  obtain ⟨run, scanned, rfl⟩ := gap_eq_ok.1 readLeading
  cases isElse with
  | false =>
      simp only [Bool.false_eq_true, if_false, bind_eq_ok, set_eq_ok, pure_eq_ok] at read
      obtain ⟨_, _, rfl, rfl, rfl⟩ := read
      refine .inl ⟨rfl, rfl, ?_⟩
      intro word
      obtain isElse := word.eq ⟨run, middle, scanned, rfl⟩
      exact Bool.false_ne_true (elseIff.1 isElse.symm)
  | true =>
      simp only [if_true, bind_eq_ok, pure_eq_ok] at read
      obtain ⟨_, afterElse, readElse, body, _, readBody, rfl, rfl⟩ := read
      obtain ⟨rfl, outside⟩ := keyword_of_isKeywordNext (by decide) (elseIff.2 rfl) readElse
      obtain ⟨rfl, -, -⟩ := gap_sound paired readLeading
      have reads := sound (Text.hasPairedReturns_of_append (Text.hasPairedReturns_of_append paired))
        readBody
      have isGap := isGap_of_gap paired readLeading (by simp)
      refine .inr ⟨_, rfl, ?_, rfl, ⟨isGap, rfl, isCanonical_otherwise reads outside⟩,
        ⟨_, _, scanned, elseIff.2 rfl⟩, ?_⟩
      · rw [Tree.written_eq, reads.written]
        simp
      · intro open_
        rw [Tree.endsOpen_eq] at open_
        exact reads.uncaptured open_

/-- A conditional, as it is read behind its keyword. -/
theorem isCanonical_conditional
    {condition : Tree}
    {consequence : RightPadded Tree}
    {alternative : Option Tree}
    (conditionPart : condition.IsPart)
    (isParentheses : condition.form.isParentheses = true)
    (reads : ReadsStatement text consequence rest)
    (alternativeFits : forall other, alternative = some other ->
      other.form.isOtherwise = true ∧ other.IsPart ∧ consequence.element.endsOpen = false) :
    (Tree.spaced leading (.conditional condition consequence alternative)).IsCanonical := by
  apply Tree.isCanonical_of_parts
  case fits =>
    refine ⟨isParentheses, reads.fits, fun other present => ?_⟩
    obtain ⟨isOtherwise, -, closed⟩ := alternativeFits other present
    exact ⟨isOtherwise, closed⟩
  case separates => exact reads.closes
  case gaps => simpa [Form.gaps] using reads.isGap
  case eof => simp [Form.eof?]
  case parts =>
    refine List.forall_mem_cons.2 ⟨conditionPart, List.forall_mem_cons.2 ⟨reads.part, ?_⟩⟩
    intro child member
    exact (alternativeFits child (Option.mem_toList.1 member)).2.1

theorem conditional_sound
    {statement : Parser (RightPadded Tree)}
    (sound : IsSoundStatement statement)
    (paired : text.hasPairedReturns = true)
    (word : text.takeWhile Text.isIdentifierPart = "if".toList)
    (read : conditional statement leading text = .ok (tree, rest)) :
    ReadsAs leading text tree rest ∧
      (∃ condition consequence alternative,
        tree.form = .conditional condition consequence alternative) ∧
      (tree.endsOpen = true -> ¬WordNext rest "else".toList) := by
  unfold conditional at read
  simp only [bind_eq_ok, pure_eq_ok] at read
  obtain ⟨_, afterIf, readIf, conditionLeading, atCondition, readLeading, condition, afterCondition,
    readCondition, consequence, afterConsequence, readConsequence, other, _, readOther, rfl, rfl⟩ := read
  obtain ⟨rfl, outside⟩ := keyword_of_isKeywordNext (by decide) word readIf
  have behindIf := Text.hasPairedReturns_of_append paired
  obtain ⟨rfl, -, -⟩ := gap_sound behindIf readLeading
  have atConditionPaired := Text.hasPairedReturns_of_append behindIf
  obtain ⟨readsCondition, isParentheses⟩ :=
    parentheses_sound expression_sound atConditionPaired readCondition
  have conditionWritten := written_ne_nil readsCondition.canonical.root.fits
    (Form.isValue_of_isParentheses isParentheses)
  have atConditionNonempty : atCondition ≠ [] := by
    rw [readsCondition.written]
    simp [conditionWritten]
  have conditionPart := readsCondition.isPart
    (isGap_of_gap behindIf readLeading atConditionNonempty)
  have afterConditionPaired := readsCondition.paired atConditionPaired
  have readsConsequence := sound afterConditionPaired readConsequence
  have written := readsCondition.written_append
  rw [readsConsequence.written] at written
  rcases alternative_sound sound (readsConsequence.paired afterConditionPaired) readOther with
    ⟨rfl, rfl, noElse⟩ | ⟨alternative, rfl, readsOther⟩
  · refine ⟨.spaced ?_ ?_, ⟨_, _, _, rfl⟩, fun _ => noElse⟩
    · rw [written]
      simp [writtenOption]
    · exact isCanonical_conditional conditionPart isParentheses readsConsequence (by simp)
  · have closed : consequence.element.endsOpen = false :=
      Bool.eq_false_iff.2 fun open_ => readsConsequence.uncaptured open_ readsOther.word
    refine ⟨.spaced ?_ ?_, ⟨_, _, _, rfl⟩, ?_⟩
    · rw [written, readsOther.written]
      simp [writtenOption]
    · refine isCanonical_conditional conditionPart isParentheses readsConsequence ?_
      intro present equal
      obtain rfl : alternative = present := by simpa using equal
      exact ⟨readsOther.isOtherwise, readsOther.part, closed⟩
    · intro open_
      rw [Tree.endsOpen_eq] at open_
      exact readsOther.uncaptured open_

/-- A statement without a semicolon of its own, as it is read. -/
theorem ReadsStatement.ofSelfTerminated
    {body : Text}
    (paired : text.hasPairedReturns = true)
    (readLeading : gap text = .ok (leading, body))
    (isGap : leading.IsGap)
    (reads : ReadsAs leading body tree rest)
    (isStatement : tree.isStatement = true)
    (isSelfTerminated : tree.form.isSelfTerminated = true)
    (word : body.takeWhile Text.isIdentifierPart = tree.firstWord)
    (uncaptured : tree.endsOpen = true -> ¬WordNext rest "else".toList) :
    ReadsStatement text (.build tree) rest where
  written := by
    obtain ⟨rfl, -, -⟩ := gap_sound paired readLeading
    rw [reads.written_append]
    simp [writtenStatement, Dialect.needsSemicolon, RightPadded.build, isSelfTerminated,
      Markers.findFirst?]
  fits := ⟨isStatement, rfl⟩
  closes := fun _ => rfl
  isGap := Space.isGapTo_empty false
  part := reads.isPart isGap
  word := by
    obtain ⟨run, scanned, rfl⟩ := gap_eq_ok.1 readLeading
    obtain ⟨written, -⟩ := Space.format_of_scanGap paired scanned
    refine ⟨body, ?_, word⟩
    rw [RightPadded.build, reads.leading, written]
    exact scanned
  uncaptured := uncaptured

/-! ## Statements with a semicolon -/

theorem terminated_sound
    {padded : RightPadded Tree}
    (paired : text.hasPairedReturns = true)
    (read : terminated tree text = .ok (padded, rest)) :
    ∃ after : Space, padded = ⟨tree, after, .empty⟩ ∧ after.IsGap ∧
      text = after.render .slash ++ ';' :: rest := by
  obtain ⟨after, readAfter, rfl⟩ := terminated_eq_ok.1 read
  obtain ⟨rfl, -, -⟩ := gap_sound paired readAfter
  exact ⟨after, rfl, isGap_of_gap paired readAfter (by simp), rfl⟩

/-- A statement with a semicolon, as it is read. -/
theorem ReadsStatement.ofTerminated
    {body middle : Text}
    {padded : RightPadded Tree}
    (paired : text.hasPairedReturns = true)
    (readLeading : gap text = .ok (leading, body))
    (reads : ReadsAs leading body tree middle)
    (readSign : terminated tree middle = .ok (padded, rest))
    (isStatement : tree.isStatement = true)
    (needsSign : tree.form.isSelfTerminated = false)
    (nonempty : tree.form.isEmpty = false)
    (word : body.takeWhile Text.isIdentifierPart = tree.firstWord)
    (closed : tree.endsOpen = false) :
    ReadsStatement text padded rest := by
  obtain ⟨run, scanned, rfl⟩ := gap_eq_ok.1 readLeading
  obtain ⟨written, -⟩ := Space.format_of_scanGap paired scanned
  have whole := eq_append_of_scanGap scanned
  have bodyPaired : body.hasPairedReturns = true := by
    rw [whole] at paired
    exact Text.hasPairedReturns_of_append paired
  obtain ⟨after, rfl, afterIsGap, rfl⟩ := terminated_sound (reads.paired bodyPaired) readSign
  have bodyNonempty : body ≠ [] := by
    rw [reads.written]
    simp
  refine ⟨?_, ⟨isStatement, rfl⟩, ?_, afterIsGap, ?_, ⟨body, ?_, word⟩, ?_⟩
  · have front := reads.written_append
    rw [written] at front
    rw [whole, front]
    simp [writtenStatement, Dialect.needsSemicolon, needsSign, Markers.findFirst?]
  · rintro (terminates | isEmpty)
    · exact absurd (terminates.symm.trans needsSign) Bool.noConfusion
    · exact absurd (isEmpty.symm.trans nonempty) Bool.noConfusion
  · exact reads.isPart (isGap_of_gap paired readLeading bodyNonempty)
  · rw [reads.leading, written]
    exact scanned
  · intro open_
    exact absurd (open_.symm.trans closed) Bool.noConfusion

theorem returns_sound
    (paired : text.hasPairedReturns = true)
    (word : text.takeWhile Text.isIdentifierPart = "return".toList)
    (read : returns leading text = .ok (tree, rest)) :
    ReadsAs leading text tree rest ∧ ∃ value, tree.form = .returns value := by
  unfold returns at read
  simp only [bind_eq_ok] at read
  obtain ⟨_, afterReturn, readReturn, isPlain, _, looked, read⟩ := read
  obtain ⟨rfl, outside⟩ := keyword_of_isKeywordNext (by decide) word readReturn
  obtain ⟨rfl, -⟩ := isNextAfterGap_eq_ok.1 looked
  have behind := Text.hasPairedReturns_of_append paired
  cases isPlain with
  | true =>
      rw [if_pos rfl, pure_eq_ok] at read
      obtain ⟨rfl, rfl⟩ := read
      refine ⟨.spaced (by simp [writtenOption]) ?_, none, rfl⟩
      apply Tree.isCanonical_of_parts <;> simp [Form.Fits, Form.Separates, Form.gaps, Form.eof?,
        Form.children]
  | false =>
      simp only [Bool.false_eq_true, if_false, bind_eq_ok, pure_eq_ok] at read
      obtain ⟨valueLeading, atValue, readLeading, value, _, readValue, rfl, rfl⟩ := read
      obtain ⟨rfl, -, -⟩ := gap_sound behind readLeading
      obtain ⟨reads, isValue⟩ := expression_sound (Text.hasPairedReturns_of_append behind) readValue
      have valueWritten := written_ne_nil reads.canonical.root.fits isValue
      have atValueNonempty : atValue ≠ [] := by
        rw [reads.written]
        simp [valueWritten]
      have part := reads.isPart (isGap_of_gap behind readLeading atValueNonempty)
      refine ⟨.spaced ?_ ?_, some value, rfl⟩
      · rw [reads.written_append]
        simp [writtenOption]
      · apply Tree.isCanonical_of_parts
        case fits => simpa [Form.Fits] using isValue
        case separates =>
          intro present equal startsWord
          obtain rfl : value = present := by simpa using equal
          refine Bool.eq_false_iff.2 fun isEmpty => ?_
          rw [reads.leading] at isEmpty
          rw [(Space.render_eq_nil_iff _).2 isEmpty, List.nil_append, reads.written] at outside
          rw [← startsIn_written reads.canonical (.inl isValue)] at startsWord
          rw [Text.startsIn_append startsWord] at outside
          cases outside
        case gaps => simp [Form.gaps]
        case eof => simp [Form.eof?]
        case parts => simpa [Form.children] using part

/-! ## Declarations -/

/-- Words that are kept as they are written. -/
theorem isCanonical_unknown
    {first : Text}
    {more : List (Text × Text)}
    (isName : isName first = true)
    (nonempty : more ≠ [])
    (spaced : forall pair, pair ∈ more -> IsSpacedWord pair)
    (form : tree.form = .unknown (first ++ writtenWords more)) :
    tree.IsCanonical := by
  apply Tree.isCanonical_of_parts <;> rw [form]
  case fits => exact ⟨first, more, isName, nonempty, spaced, rfl⟩
  case separates => trivial
  case gaps => simp [Form.gaps]
  case eof => simp [Form.eof?]
  case parts => simp [Form.children]

theorem parameter_sound : IsSound Form.isWords parameter := by
  intro leading text tree rest paired read
  unfold parameter at read
  simp only [bind_eq_ok] at read
  obtain ⟨⟨first, more⟩, _, readWords, read⟩ := read
  obtain ⟨rfl, isName, spaced, -⟩ := words_sound paired readWords
  cases more with
  | nil =>
      obtain ⟨rfl, rfl⟩ := pure_eq_ok.1 read
      exact ⟨.spaced (by simp [writtenWords]) (isCanonical_identifier isName), rfl⟩
  | cons pair others =>
      obtain ⟨rfl, rfl⟩ := pure_eq_ok.1 read
      exact ⟨.spaced (by simp) (isCanonical_unknown isName (by simp) spaced rfl), rfl⟩

/-- The return type of a declaration, as it is read. -/
theorem returnType_sound
    {first : Text}
    {more : List (Text × Text)}
    (isName : isName first = true)
    (spaced : forall pair, pair ∈ more -> IsSpacedWord pair) :
    (returnType first more).IsPart ∧ (returnType first more).form.isWords = true ∧
      (returnType first more).written = first ++ writtenWords more ∧
        (returnType first more).firstWord = first := by
  have outside : (writtenWords more ++ []).startsIn Text.isIdentifierPart = false := startsIn_writtenWords spaced rfl
  rw [List.append_nil] at outside
  have firstWord := firstWord_returnType isName outside
  cases more with
  | nil =>
      refine ⟨⟨Space.isGapTo_empty false, rfl, isCanonical_identifier isName⟩, rfl, ?_, firstWord⟩
      simp [returnType, Tree.identifier, Tree.written_eq, writtenWords]
  | cons pair others =>
      refine ⟨⟨Space.isGapTo_empty false, rfl, isCanonical_unknown isName (by simp) spaced rfl⟩, rfl, ?_, firstWord⟩
      simp [returnType, Tree.written_eq]

/-- The body of a declaration, as it is read. -/
theorem body?_sound
    {statement : Parser (RightPadded Tree)}
    (sound : IsSoundStatement statement)
    {result : Option Tree}
    (paired : text.hasPairedReturns = true)
    (read : declaration?.body? statement text = .ok (result, rest)) :
    text = writtenOption result ++ rest ∧
      forall body, result = some body -> body.IsPart ∧ body.form.isBlock = true := by
  unfold declaration?.body? at read
  simp only [bind_eq_ok] at read
  obtain ⟨isOpen, _, looked, read⟩ := read
  obtain ⟨rfl, -⟩ := isNextAfterGap_eq_ok.1 looked
  cases isOpen with
  | false =>
      rw [if_neg Bool.false_ne_true, pure_eq_ok] at read
      obtain ⟨rfl, rfl⟩ := read
      exact ⟨rfl, by simp⟩
  | true =>
      simp only [if_true, bind_eq_ok, pure_eq_ok] at read
      obtain ⟨bodyLeading, atBody, readLeading, body, _, readBody, rfl, rfl⟩ := read
      obtain ⟨rfl, -, -⟩ := gap_sound paired readLeading
      obtain ⟨reads, isBlock⟩ := block_sound sound (Text.hasPairedReturns_of_append paired) readBody
      have atBodyNonempty : atBody ≠ [] := by
        obtain ⟨statements, closing, form⟩ := Form.exists_of_isBlock isBlock
        rw [reads.written, form]
        simp
      refine ⟨reads.written_append, ?_⟩
      intro present equal
      obtain rfl : body = present := by simpa using equal
      exact ⟨reads.isPart (isGap_of_gap paired readLeading atBodyNonempty), isBlock⟩

theorem isCanonical_declaration
    {first name : Text}
    {more : List (Text × Text)}
    {space : Space}
    {parameters : Container Tree}
    {body : Option Tree}
    (isFirstName : isName first = true)
    (spaced : forall pair, pair ∈ more -> IsSpacedWord pair)
    (noIf : first ≠ "if".toList)
    (noReturn : first ≠ "return".toList)
    (nameIsGap : space.IsGap)
    (separated : space.isEmpty = false)
    (isName : isName name = true)
    (beforeIsGap : parameters.before.IsGap)
    (listSound : SoundContainer Form.isWords parameters)
    (bodyFits : forall present, body = some present ->
      present.IsPart ∧ present.form.isBlock = true) :
    (Tree.spaced leading (.declaration (some (returnType first more))
      (.spaced space.renewed (.identifier name none)) parameters body)).IsCanonical := by
  obtain ⟨typePart, typeIsWords, -, typeWord⟩ := returnType_sound isFirstName spaced
  apply Tree.isCanonical_of_parts
  case fits =>
    refine ⟨⟨_, rfl, typeIsWords, ?_⟩, rfl, listSound.fits, fun present equal =>
      (bodyFits present equal).2⟩
    rw [typeWord]
    simp only [isStatementWord, Bool.or_eq_true, decide_eq_true_eq]
    rintro ((isIf | isReturn) | isElse)
    · exact absurd isIf noIf
    · exact absurd isReturn noReturn
    · exact isElse
  case separates =>
    refine ⟨?_, by simpa [Space.isEmpty] using separated, listSound.closes⟩
    intro present equal
    obtain rfl : returnType first more = present := by simpa using equal
    cases more <;> rfl
  case gaps =>
    simp only [Tree.form_spaced, Form.gaps, List.forall_mem_cons]
    exact ⟨beforeIsGap, listSound.gaps⟩
  case eof => simp [Form.eof?]
  case parts =>
    simp only [Tree.form_spaced, Form.children, Option.toList_some, List.cons_append,
      List.nil_append, List.forall_mem_cons, List.forall_mem_append]
    refine ⟨typePart, isPart_identifier isName (Space.isGapTo_renewed.2 nameIsGap),
      listSound.parts, ?_⟩
    intro child member
    exact (bodyFits child (Option.mem_toList.1 member)).1

/-- A declaration, as it is read. -/
structure ReadsDeclaration
    (leading : Space)
    (text : Text)
    (tree : Tree)
    (rest : Text) : Prop where
  reads : ReadsAs leading text tree rest
  isDeclaration : ∃ returnType name parameters body,
    tree.form = .declaration returnType name parameters body
  word : text.takeWhile Text.isIdentifierPart = tree.firstWord

theorem declaration?_sound
    {statement : Parser (RightPadded Tree)}
    (sound : IsSoundStatement statement)
    {result : Option Tree}
    (paired : text.hasPairedReturns = true)
    (noIf : text.takeWhile Text.isIdentifierPart ≠ "if".toList)
    (noReturn : text.takeWhile Text.isIdentifierPart ≠ "return".toList)
    (read : declaration? statement leading text = .ok (result, rest)) :
    (result = none ∧ text = rest) ∨
      ∃ tree, result = some tree ∧ ReadsDeclaration leading text tree rest := by
  obtain ⟨rfl, rfl, -⟩ | ⟨-, first, more, nameRun, name, afterWords, before, atList, parameters, afterList, body,
    readWords, readBefore, readList, readBody, rfl⟩ := declaration?_cases read
  · exact .inl ⟨rfl, rfl⟩
  · obtain ⟨rfl, isName, spaced, ends⟩ := words_sound paired readWords
    obtain ⟨moreSpaced, nameSpaced⟩ := List.forall_mem_append.1 spaced
    obtain ⟨isName', space, nameIsGap, separated, rfl⟩ := nameSpaced _ (List.mem_singleton_self _)
    have behindWords := Text.hasPairedReturns_of_append (Text.hasPairedReturns_of_append paired)
    obtain ⟨rfl, -, -⟩ := gap_sound behindWords readBefore
    obtain ⟨rfl, rfl, listSound⟩ := container_sound parameter_sound rfl (by simp)
      (Text.hasPairedReturns_of_append behindWords) readList
    have beforeIsGap := isGap_of_gap behindWords readBefore (by simp)
    have behindList : afterList.hasPairedReturns = true := by
      have behind := Text.hasPairedReturns_of_append behindWords
      exact Text.hasPairedReturns_of_append
        (Text.hasPairedReturns_of_append (Text.hasPairedReturns_of_append behind))
    obtain ⟨rfl, bodyFits⟩ := body?_sound sound behindList readBody
    have longest := Text.takeWhile_run (isName_iff.1 isName).2 (startsIn_writtenWords spaced ends.1)
    rw [longest] at noIf noReturn
    rw [Space.format_render nameIsGap]
    refine .inr ⟨_, rfl, ⟨.spaced ?_ ?_, ⟨_, _, _, _, rfl⟩, ?_⟩⟩
    · obtain ⟨-, -, typeWritten, -⟩ := returnType_sound isName moreSpaced
      simp [writtenOption, typeWritten, writtenWords, writtenContainer, Tree.written_eq (.spaced space.renewed _)]
    · exact isCanonical_declaration isName moreSpaced noIf noReturn nameIsGap separated isName' beforeIsGap listSound
        bodyFits
    · obtain ⟨-, -, -, typeWord⟩ := returnType_sound isName moreSpaced
      rw [longest, Tree.firstWord, Tree.firstToken_eq]
      exact typeWord.symm

/-! ## All statements -/

/-- An expression statement ends with a semicolon of its own. -/
theorem closes_of_isValue
    (isValue : tree.form.isValue = true) :
    tree.form.isSelfTerminated = false ∧ tree.form.isEmpty = false ∧ tree.endsOpen = false := by
  rw [Tree.endsOpen_eq]
  revert isValue
  cases tree.form <;> simp [Form.isValue, Form.isOperand, Form.isSelfTerminated, Form.isEmpty]

theorem isStatement_of_isValue
    (isValue : tree.form.isValue = true)
    (noKeyword : isStatementWord tree.firstWord = false) :
    tree.isStatement = true := by
  unfold Tree.isStatement
  revert isValue
  cases tree.form <;> simp [Form.isValue, Form.isOperand, noKeyword]

/-- A semicolon alone is the empty statement. -/
theorem ReadsStatement.ofSign
    (paired : text.hasPairedReturns = true)
    (readLeading : gap text = .ok (leading, ';' :: rest))
    (isGap : leading.IsGap) :
    ReadsStatement text (.build (.spaced leading .empty)) rest where
  written := by
    obtain ⟨rfl, -, -⟩ := gap_sound paired readLeading
    simp [writtenStatement, RightPadded.build, Tree.written_eq, Dialect.needsSemicolon,
      Markers.findFirst?, Form.isSelfTerminated]
  fits := ⟨rfl, rfl⟩
  closes := fun _ => rfl
  isGap := Space.isGapTo_empty false
  part := ⟨isGap, rfl, isCanonical_of_isEmpty rfl⟩
  word := by
    obtain ⟨run, scanned, rfl⟩ := gap_eq_ok.1 readLeading
    obtain ⟨written, -⟩ := Space.format_of_scanGap paired scanned
    have notPart : Text.isIdentifierPart ';' = false :=
      isIdentifierPart_of_punctuation (by decide)
    refine ⟨';' :: rest, ?_, ?_⟩
    · rw [RightPadded.build, Tree.leading_spaced, written]
      exact scanned
    · rw [RightPadded.build, Tree.firstWord, Tree.firstToken_eq]
      simp [notPart]
  uncaptured := by
    intro open_
    rw [RightPadded.build, Tree.endsOpen_eq] at open_
    cases open_

/-- A declaration that can stand where a statement is read. -/
theorem ReadsDeclaration.isStatement
    {body : Text}
    (reads : ReadsDeclaration leading body tree rest) :
    tree.isStatement = true ∧ tree.form.isEmpty = false ∧ tree.endsOpen = false ∧ body ≠ [] := by
  obtain ⟨returnType, name, parameters, content, form⟩ := reads.isDeclaration
  refine ⟨by simp [Tree.isStatement, form], by rw [form]; rfl, by rw [Tree.endsOpen_eq, form], ?_⟩
  rw [reads.reads.written, form]
  simp [writtenContainer]

theorem statementStep_sound
    {statement : Parser (RightPadded Tree)}
    (sound : IsSoundStatement statement) :
    IsSoundStatement (statementStep statement) := by
  intro text padded rest paired read
  obtain ⟨leading, body, readLeading, isCase⟩ := statementStep_cases read
  have bodyPaired : body.hasPairedReturns = true := by
    rw [(gap_sound paired readLeading).1] at paired
    exact Text.hasPairedReturns_of_append paired
  cases isCase with
  | block readBlock =>
      obtain ⟨reads, isBlock⟩ := block_sound sound bodyPaired readBlock
      obtain ⟨statements, closing, form⟩ := Form.exists_of_isBlock isBlock
      have notPart : Text.isIdentifierPart '\x7b' = false :=
        isIdentifierPart_of_punctuation (by decide)
      have bodyNonempty : body ≠ [] := by
        rw [reads.written, form]
        simp
      refine .ofSelfTerminated paired readLeading (isGap_of_gap paired readLeading bodyNonempty)
        reads (by simp [Tree.isStatement, form]) (by simp [form, Form.isSelfTerminated]) ?_ ?_
      · rw [reads.written, form, Tree.firstWord, Tree.firstToken_eq, form]
        simp [notPart]
      · rw [Tree.endsOpen_eq, form]
        exact fun open_ => Bool.noConfusion open_
  | conditional word readConditional =>
      obtain ⟨reads, ⟨condition, consequence, other, form⟩, uncaptured⟩ :=
        conditional_sound sound bodyPaired word readConditional
      have bodyNonempty : body ≠ [] := by
        rw [reads.written, form]
        simp
      refine .ofSelfTerminated paired readLeading (isGap_of_gap paired readLeading bodyNonempty)
        reads (by simp [Tree.isStatement, form]) (by simp [form, Form.isSelfTerminated]) ?_ uncaptured
      rw [word, Tree.firstWord, Tree.firstToken_eq, form]
      have whole : "if".toList.takeWhile Text.isIdentifierPart = "if".toList := by decide
      exact whole.symm
  | empty isSign =>
      subst isSign
      exact .ofSign paired readLeading (isGap_of_gap paired readLeading (by simp))
  | returns word readReturns readSign =>
      obtain ⟨reads, value, form⟩ := returns_sound bodyPaired word readReturns
      refine .ofTerminated paired readLeading reads readSign (by simp [Tree.isStatement, form])
        (by simp [form, Form.isSelfTerminated]) (by simp [form, Form.isEmpty]) ?_ ?_
      · rw [word, Tree.firstWord, Tree.firstToken_eq, form]
        have whole : "return".toList.takeWhile Text.isIdentifierPart = "return".toList := by decide
        exact whole.symm
      · rw [Tree.endsOpen_eq, form]
  | closedDeclaration noIf noReturn readDeclaration terminates =>
      obtain ⟨impossible, -⟩ | ⟨tree, equal, reads⟩ :=
        declaration?_sound sound bodyPaired noIf noReturn readDeclaration
      · cases impossible
      · obtain rfl := Option.some.inj equal
        obtain ⟨isStatement, -, closed, bodyNonempty⟩ := reads.isStatement
        exact .ofSelfTerminated paired readLeading (isGap_of_gap paired readLeading bodyNonempty) reads.reads
          isStatement terminates reads.word fun open_ => absurd (open_.symm.trans closed) Bool.noConfusion
  | openDeclaration noIf noReturn readDeclaration needsSign readSign =>
      obtain ⟨impossible, -⟩ | ⟨tree, equal, reads⟩ :=
        declaration?_sound sound bodyPaired noIf noReturn readDeclaration
      · cases impossible
      · obtain rfl := Option.some.inj equal
        obtain ⟨isStatement, nonempty, closed, -⟩ := reads.isStatement
        exact .ofTerminated paired readLeading reads.reads readSign isStatement needsSign nonempty reads.word closed
  | expression noKeyword noHeading readTree readSign =>
      obtain ⟨reads, isValue⟩ := expression_sound bodyPaired readTree
      obtain ⟨after, -, afterIsGap, whole⟩ := terminated_sound (reads.paired bodyPaired) readSign
      have outside := startsIn_render_cons afterIsGap ';' (by decide) rest
      have word := takeWhile_written reads.canonical (.inl isValue) outside
      rw [← whole, ← reads.written] at word
      rw [word] at noKeyword
      obtain ⟨needsSign, nonempty, closed⟩ := closes_of_isValue isValue
      exact .ofTerminated paired readLeading reads readSign (isStatement_of_isValue isValue noKeyword) needsSign
        nonempty word closed

/-- Statements are read as canonical trees, whatever the number of nestings. -/
theorem statementWithin_sound (nestings : Nat) : IsSoundStatement (statementWithin nestings) := by
  induction nestings with
  | zero =>
      intro text padded rest _ read
      simp [statementWithin] at read
  | succ nestings ih => exact statementStep_sound ih

theorem statement_sound : IsSoundStatement statement := by
  intro text padded rest paired read
  unfold Parser.statement at read
  simp only [bind_eq_ok, get_eq_ok] at read
  obtain ⟨_, _, ⟨rfl, rfl⟩, read⟩ := read
  exact statementWithin_sound _ paired read

/-! ## Units -/

theorem unitStatements_sound
    {bound : Nat}
    {statements : List (RightPadded Tree)}
    {eof : Space}
    (paired : text.hasPairedReturns = true)
    (read : unitStatements bound text = .ok ((statements, eof), rest)) :
    ReadsStatements text statements (eof.render .slash) ∧ eof.IsGapTo true := by
  induction bound generalizing text statements with
  | zero => simp [unitStatements] at read
  | succ bound ih =>
      unfold unitStatements at read
      simp only [bind_eq_ok, get_eq_ok] at read
      obtain ⟨_, _, ⟨rfl, rfl⟩, space, middle, readGap, _, _, ⟨rfl, rfl⟩, read⟩ := read
      split at read
      · next atEnd =>
          simp only [pure_eq_ok, Prod.mk.injEq] at read
          obtain ⟨⟨rfl, rfl⟩, rfl⟩ := read
          obtain ⟨whole, isGap, -⟩ := gap_sound paired readGap
          subst atEnd
          rw [List.append_nil] at whole
          rw [whole]
          exact ⟨.nil, isGap⟩
      · simp only [bind_eq_ok, set_eq_ok, pure_eq_ok] at read
        obtain ⟨_, _, rfl, first, _, readFirst, ⟨others, space⟩, _, readOthers, equal, rfl⟩ := read
        obtain ⟨rfl, rfl⟩ := Prod.mk.inj equal
        have reads := statement_sound paired readFirst
        obtain ⟨readsOthers, isGap⟩ := ih (reads.paired paired) readOthers
        exact ⟨.cons reads readsOthers, isGap⟩

/-- A unit is read as a canonical tree that is written as the whole text. -/
theorem unit_sound
    {path : Path}
    (paired : text.hasPairedReturns = true)
    (read : unit path text = .ok (tree, rest)) :
    (∃ statements eof, tree = .build (.compilationUnit .java ⟨path, none, none⟩ statements eof)) ∧
      tree.IsCanonical ∧ tree.form.written = text := by
  unfold Parser.unit at read
  simp only [bind_eq_ok, get_eq_ok, pure_eq_ok] at read
  obtain ⟨_, _, ⟨rfl, rfl⟩, ⟨statements, eof⟩, _, readStatements, rfl, rfl⟩ := read
  obtain ⟨reads, isGap⟩ := unitStatements_sound paired readStatements
  refine ⟨⟨_, _, rfl⟩, ?_, ?_⟩
  · apply Tree.isCanonical_of_parts
    case fits => exact ⟨rfl, reads.fits⟩
    case separates => exact reads.closes
    case gaps => simpa [Form.gaps] using reads.gaps
    case eof =>
      intro space equal
      obtain rfl : eof = space := by simpa [Form.eof?] using equal
      exact isGap
    case parts => exact reads.parts
  · simp [reads.written]

end Java
end Lossless
