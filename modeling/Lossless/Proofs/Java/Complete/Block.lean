import Lossless.Proofs.Java.Complete.Expression
import Lossless.Proofs.Java.Sound.Statement

/-!
# Blocks and conditionals are read back

A written statement is known by its first word, so the parser of statements takes the same branch as the one
it was written from. What comes after a statement matters only when the statement is left open, since an
`else` would then go to it.
-/

namespace Lossless
namespace Java

open Lossless.Parser
open Java.Parser

variable {text rest : Text} {leading : Space} {tree : Tree} {padded : RightPadded Tree}

theorem isComplete_expression (bound : Nat) : IsComplete Form.isValue bound Parser.expression :=
  fun canonical isValue ends _ => expression_complete canonical isValue ends

/-! ## How statements start -/

/-- The semicolon of a statement, if it has one. -/
def statementSign (tree : Tree) : Text :=
  if tree.form.isSelfTerminated then [] else [';']

/-- A statement of a canonical tree with its padding. -/
structure SoundStatement (padded : RightPadded Tree) : Prop where
  fits : FitsStatement padded
  closes : Closes padded
  isGap : padded.after.IsGap
  part : padded.element.IsPart

/-- What is written of a statement behind its leading space. -/
def statementBody
    (padded : RightPadded Tree)
    (rest : Text) : Text :=
  padded.element.form.written ++ (padded.after.render .slash ++ (statementSign padded.element ++ rest))

theorem writtenStatement_append
    (fits : FitsStatement padded)
    (rest : Text) :
    writtenStatement padded ++ rest =
      padded.element.leading.render .slash ++ statementBody padded rest := by
  have sign : (if Dialect.java.needsSemicolon padded then [';'] else []) =
      statementSign padded.element := by
    rw [Dialect.needsSemicolon, statementSign, Markers.findFirst?, fits.2]
    cases padded.element.form.isSelfTerminated <;> rfl
  rw [writtenStatement, sign, Tree.written_eq, statementBody]
  simp only [List.append_assoc]

/-- A statement can start with the character. -/
def opensStatement (char : Char) : Bool :=
  opensValue char || char = '\x7b' || char = ';'

theorem isSolid_of_opensStatement
    (starts : text.startsIn opensStatement = true) :
    text.isSolid = true := by
  cases text with
  | nil => rfl
  | cons first more =>
      have opens : opensStatement first = true := starts
      simp only [opensStatement, Bool.or_eq_true, decide_eq_true_eq] at opens
      rcases opens with (opens | rfl) | rfl
      · exact isSolid_of_opensValue opens
      · exact isSolid_of_punctuation (by decide) (by decide) more
      · exact isSolid_of_punctuation (by decide) (by decide) more

theorem startsIn_opensStatement_of_value
    (starts : text.startsIn opensValue = true) :
    text.startsIn opensStatement = true := by
  refine Text.startsIn_of_startsIn (fun opens => ?_) starts
  rw [opensStatement, opens]
  rfl

/-- No statement starts with a closing brace, nor at the end of the text. -/
theorem dropStart?_of_opensStatement
    (starts : text.startsIn opensStatement = true) :
    Text.dropStart? ['\x7d'] text = none ∧ text ≠ [] := by
  cases text with
  | nil => cases starts
  | cons first more =>
      have other : '\x7d' ≠ first := by
        rintro rfl
        revert starts
        change opensStatement '\x7d' = true -> False
        decide
      exact ⟨by simp [Text.dropStart?, other], by simp⟩

/-- The gap after a statement, with its semicolon if there is one. -/
theorem endsValue_of_sign
    (isGap : padded.after.IsGap)
    (needsSign : padded.element.form.isSelfTerminated = false)
    (rest : Text) :
    EndsValue (padded.after.render .slash ++ (statementSign padded.element ++ rest)) := by
  rw [statementSign, needsSign]
  exact .of_gap isGap (by decide) rest

theorem startsIn_of_endsValue
    (ends : EndsValue text) :
    text.startsIn Text.isIdentifierPart = false := by
  obtain ⟨space, close, after, isGap, member, rfl⟩ := ends
  exact startsIn_render_cons isGap close (mem_punctuation_of_mem_closers member) after

/-- A keyword before a space that is not empty, or before a tree that starts with no word. -/
theorem startsIn_leading
    (part : tree.IsPart)
    (apart : tree.startsWord = true -> tree.leading.isEmpty = false)
    {body : Text}
    (word : body.takeWhile Text.isIdentifierPart = tree.firstWord) :
    (tree.leading.render .slash ++ body).startsIn Text.isIdentifierPart = false := by
  refine Space.startsIn_render_identifierPart part.leading fun isEmpty => ?_
  have noWord : tree.startsWord = false := by
    refine Bool.eq_false_iff.2 fun startsWord => ?_
    rw [apart startsWord] at isEmpty
    cases isEmpty
  rw [Tree.startsWord, ← word] at noWord
  cases body with
  | nil => rfl
  | cons first more =>
      cases inside : Text.isIdentifierPart first with
      | false => exact inside
      | true => simp [inside] at noWord

/-- A statement is of a kind of its own, or a value that starts with no keyword. -/
theorem isStatement_cases
    (isStatement : tree.isStatement = true) :
    (match tree.form with
      | .block .. | .conditional .. | .returns _ | .declaration .. | .empty => True
      | _ => False) ∨
      tree.form.isValue = true ∧ isStatementWord tree.firstWord = false := by
  unfold Tree.isStatement at isStatement
  revert isStatement
  cases tree.form <;> simp

/-- The text behind a keyword does not go on with it. -/
theorem keyword_starts
    {keyword : Text}
    (opens : keyword.startsIn opensValue = true)
    (apart : rest.startsIn Text.isIdentifierPart = false) :
    (keyword ++ rest).startsIn opensStatement = true ∧
      (keyword ++ rest).takeWhile Text.isIdentifierPart = keyword.takeWhile Text.isIdentifierPart :=
  ⟨startsIn_opensStatement_of_value (Text.startsIn_append opens rest),
    takeWhile_append_of_startsIn apart keyword⟩

/-- A condition keeps apart from the keyword before it. -/
theorem startsIn_condition
    (isParentheses : tree.form.isParentheses = true)
    (part : tree.IsPart)
    (rest : Text) :
    (tree.written ++ rest).startsIn Text.isIdentifierPart = false := by
  rw [Tree.written_eq, List.append_assoc]
  cases form : tree.form with
  | parentheses inner =>
      rw [Form.written_parentheses]
      exact startsIn_render_cons part.leading '(' (by decide) _
  | _ =>
      rw [form] at isParentheses
      cases isParentheses

/-- A value keeps apart from the keyword before it. -/
theorem startsIn_value
    (isValue : tree.form.isValue = true)
    (part : tree.IsPart)
    (apart : tree.startsWord = true -> tree.leading.isEmpty = false)
    (ends : rest.startsIn Text.isIdentifierPart = false) :
    (tree.written ++ rest).startsIn Text.isIdentifierPart = false := by
  rw [Tree.written_eq, List.append_assoc]
  exact startsIn_leading part apart (takeWhile_written part.canonical (.inl isValue) ends)

/-- The start of a written statement decides its first character and its first word. -/
theorem statement_starts
    (sound : SoundStatement padded)
    (rest : Text) :
    (statementBody padded rest).startsIn opensStatement = true ∧
      (statementBody padded rest).takeWhile Text.isIdentifierPart = padded.element.firstWord := by
  obtain ⟨⟨isStatement, -⟩, closes, isGap, part⟩ := sound
  have canonical := part.canonical
  obtain ⟨fits, separates, gaps, -, -, -⟩ := canonical.root
  rcases isStatement_cases isStatement with kind | ⟨isValue, -⟩
  · have ends : padded.element.form.isSelfTerminated = false ->
        (padded.after.render .slash ++ (statementSign padded.element ++ rest)).startsIn
          Text.isIdentifierPart = false :=
      fun needsSign => startsIn_of_endsValue (endsValue_of_sign isGap needsSign rest)
    rw [Tree.firstWord, Tree.firstToken_eq, statementBody]
    cases form : padded.element.form with
    | block statements closing =>
        have notPart : Text.isIdentifierPart '\x7b' = false :=
          isIdentifierPart_of_punctuation (by decide)
        have opens : opensStatement '\x7b' = true := by decide
        rw [Form.written_block]
        exact ⟨opens, by simp [notPart]⟩
    | conditional condition consequence alternative =>
        rw [form] at fits
        have conditionPart : condition.IsPart := canonical.part (by simp [form, Form.children])
        have apart := startsIn_condition fits.1 conditionPart
          (writtenStatement consequence ++ writtenOption alternative ++
            (padded.after.render .slash ++ (statementSign padded.element ++ rest)))
        have opens : Text.startsIn opensValue "if".toList = true := by decide
        simpa using keyword_starts opens apart
    | returns value =>
        rw [form] at fits separates
        have opens : Text.startsIn opensValue "return".toList = true := by decide
        rw [form] at ends
        cases value with
        | none => simpa [writtenOption] using keyword_starts opens (ends rfl)
        | some value =>
            have valuePart : value.IsPart := canonical.part (by simp [form, Form.children])
            have apart := startsIn_value (fits value rfl) valuePart (separates value rfl) (ends rfl)
            simpa [writtenOption] using keyword_starts opens apart
    | declaration returnType name parameters body =>
        rw [form] at fits separates
        obtain ⟨⟨returnType, rfl, isWords, -⟩, isIdentifier, -, -⟩ := fits
        obtain ⟨noSpace, spaced, -⟩ := separates
        have returnCanonical : returnType.IsCanonical :=
          (canonical.part (by simp [form, Form.children])).canonical
        have namePart : name.IsPart := canonical.part (by simp [form, Form.children])
        have apart : (name.written ++ (writtenContainer (['('], [')']) parameters ++
            (writtenOption body ++ (padded.after.render .slash ++
              (statementSign padded.element ++ rest))))).startsIn Text.isIdentifierPart = false := by
          rw [Tree.written_eq, List.append_assoc]
          exact Space.startsIn_render_identifierPart namePart.leading fun isEmpty => by
            simp [spaced] at isEmpty
        have word := takeWhile_written returnCanonical (.inr isWords) apart
        have opens := startsIn_opensStatement_of_value
          (startsIn_opensValue returnCanonical (.inr isWords))
        refine ⟨?_, ?_⟩
        · simpa [writtenOption, Tree.written_of_isEmpty (noSpace returnType rfl)] using
            Text.startsIn_append opens _
        · simpa [writtenOption, Tree.written_of_isEmpty (noSpace returnType rfl), Tree.firstWord]
            using word
    | empty =>
        have noSpace : padded.after.isEmpty = true := closes (.inr (by rw [form]; rfl))
        have notPart : Text.isIdentifierPart ';' = false :=
          isIdentifierPart_of_punctuation (by decide)
        have opens : opensStatement ';' = true := by decide
        rw [Form.written_empty, (Space.render_eq_nil_iff _).2 noSpace, statementSign, form]
        exact ⟨opens, by simp [Form.isSelfTerminated, notPart]⟩
    | _ => simp [form] at kind
  · have needsSign := (closes_of_isValue isValue).1
    have outside := startsIn_of_endsValue (endsValue_of_sign isGap needsSign rest)
    refine ⟨?_, takeWhile_written canonical (.inl isValue) outside⟩
    exact startsIn_opensStatement_of_value
      (Text.startsIn_append (startsIn_opensValue canonical (.inl isValue)) _)

/-- The space before a statement is read back. -/
theorem gap_statement
    (sound : SoundStatement padded)
    (rest : Text) :
    gap (writtenStatement padded ++ rest) =
      .ok (padded.element.leading.renewed, statementBody padded rest) := by
  have solid := isSolid_of_opensStatement (statement_starts sound rest).1
  rw [writtenStatement_append sound.fits]
  exact gap_render sound.part.leading solid fun isFinal => by cases isFinal

/-- The word before a statement is found. -/
theorem wordNext_statement
    (sound : SoundStatement padded)
    (rest : Text) :
    WordNext (writtenStatement padded ++ rest) padded.element.firstWord := by
  obtain ⟨starts, word⟩ := statement_starts sound rest
  rw [writtenStatement_append sound.fits]
  refine ⟨padded.element.leading.render .slash, statementBody padded rest, ?_, word⟩
  exact scanGap_render sound.part.leading (isSolid_of_opensStatement starts) fun isFinal => by
    cases isFinal

theorem writtenStatement_ne_nil
    (sound : SoundStatement padded) :
    writtenStatement padded ≠ [] := by
  intro nothing
  have starts := (statement_starts sound []).1
  have whole := writtenStatement_append sound.fits []
  rw [nothing, List.nil_append, eq_comm, List.append_eq_nil_iff] at whole
  rw [whole.2] at starts
  cases starts

/-! ## Statements one after the other -/

/-- Statements of a canonical tree. -/
structure SoundStatements (statements : List (RightPadded Tree)) : Prop where
  each : forall padded, padded ∈ statements -> SoundStatement padded
  apart : noneCaptured statements = true

namespace SoundStatements

variable {first : RightPadded Tree} {others : List (RightPadded Tree)}

theorem tail
    (sound : SoundStatements (first :: others)) :
    SoundStatements others where
  each := fun padded member => sound.each padded (List.mem_cons_of_mem _ member)
  apart := by
    have apart := sound.apart
    cases others with
    | nil => rfl
    | cons second more =>
        rw [noneCaptured, Bool.and_eq_true] at apart
        exact apart.2

theorem head
    (sound : SoundStatements (first :: others)) :
    SoundStatement first :=
  sound.each first (List.mem_cons_self ..)

end SoundStatements

/-- What comes after a statement: no `else`, if the statement is left open. -/
def AfterStatement
    (tree : Tree)
    (text : Text) : Prop :=
  ∃ word, WordNext text word ∧ (tree.endsOpen = true -> word ≠ "else".toList)

/-- The next statement, or what comes after the last one, is no `else` of an open one. -/
theorem afterStatement_first
    {first : RightPadded Tree}
    {others : List (RightPadded Tree)}
    (sound : SoundStatements (first :: others))
    (noWord : WordNext rest []) :
    AfterStatement first.element (writtenStatements others ++ rest) := by
  cases others with
  | nil => exact ⟨[], noWord, fun _ => by decide⟩
  | cons second more =>
      have apart := sound.apart
      rw [noneCaptured, Bool.and_eq_true, Bool.or_eq_true] at apart
      have next := wordNext_statement sound.tail.head (writtenStatements more ++ rest)
      have whole : writtenStatements (second :: more) ++ rest =
          writtenStatement second ++ (writtenStatements more ++ rest) := by
        simp [writtenStatements]
      rw [whole]
      refine ⟨_, next, fun isOpen => ?_⟩
      rcases apart.1 with closed | other
      · simp [isOpen] at closed
      · exact bne_iff_ne.1 other

/-- A parser reads written statements back, in texts that are shorter than a bound. -/
def IsCompleteStatement
    (bound : Nat)
    (statement : Parser (RightPadded Tree)) : Prop :=
  forall {padded : RightPadded Tree} {rest : Text},
    SoundStatement padded -> AfterStatement padded.element rest ->
      (writtenStatement padded ++ rest).length < bound ->
        statement (writtenStatement padded ++ rest) = .ok (padded.renewed Tree.renewed, rest)

/-- A closing brace behind a gap is no word. -/
theorem wordNext_brace
    {closing : Space}
    (isGap : closing.IsGap)
    (rest : Text) :
    WordNext (closing.render .slash ++ '\x7d' :: rest) [] := by
  have notPart : Text.isIdentifierPart '\x7d' = false :=
    isIdentifierPart_of_punctuation (by decide)
  refine ⟨closing.render .slash, '\x7d' :: rest, ?_, by simp [notPart]⟩
  exact scanGap_render isGap (isSolid_of_punctuation (by decide) (by decide) rest) fun isFinal => by
    cases isFinal

/-! ## What comes with an `else` -/

theorem isKeyword_else : "else".toList.all Text.isIdentifierPart = true := by
  decide

/-- The alternative of a canonical conditional, with its body. -/
theorem exists_body_of_isOtherwise
    (part : tree.IsPart)
    (isOtherwise : tree.form.isOtherwise = true) :
    ∃ body, tree.form = .otherwise body ∧ SoundStatement body ∧
      tree.endsOpen = body.element.endsOpen ∧
      forall rest, (writtenStatement body ++ rest).startsIn Text.isIdentifierPart = false := by
  obtain ⟨head, form⟩ := tree
  cases form with
  | otherwise body =>
      obtain ⟨fits, separates, gaps, -, -, -⟩ := part.canonical.root
      obtain ⟨closes, apart⟩ := separates
      have sound : SoundStatement body :=
        ⟨fits, closes, gaps _ (List.mem_singleton_self _),
          part.canonical.part (List.mem_singleton_self _)⟩
      refine ⟨body, rfl, sound, Tree.endsOpen_eq _, fun rest => ?_⟩
      rw [writtenStatement_append fits]
      exact startsIn_leading sound.part apart (statement_starts sound rest).2
  | _ => cases isOtherwise

/-- An `else` comes next. -/
theorem else_next
    {body : RightPadded Tree}
    (apart : (writtenStatement body ++ rest).startsIn Text.isIdentifierPart = false) :
    ((Form.otherwise body).written ++ rest).isSolid = true ∧
      ((Form.otherwise body).written ++ rest).takeWhile Text.isIdentifierPart = "else".toList := by
  have whole : (Form.otherwise body).written ++ rest =
      "else".toList ++ (writtenStatement body ++ rest) := by
    simp
  have opens : Text.startsIn opensValue "else".toList = true := by decide
  have word : "else".toList.takeWhile Text.isIdentifierPart = "else".toList := by decide
  rw [whole]
  exact ⟨isSolid_of_opensValue (Text.startsIn_append opens _),
    (takeWhile_append_of_startsIn apart _).trans word⟩

section Nested

variable {statement : Parser (RightPadded Tree)} {bound : Nat}
variable (complete : IsCompleteStatement bound statement)

include complete

/-- The statements of a block are read back up to its closing brace. -/
theorem blockStatements_complete
    {statements : List (RightPadded Tree)}
    {closing : Space}
    {fuel : Nat}
    (sound : SoundStatements statements)
    (isGap : closing.IsGap)
    (short : (writtenStatements statements ++ (closing.render .slash ++ '\x7d' :: rest)).length < bound)
    (enough : (writtenStatements statements ++ (closing.render .slash ++ '\x7d' :: rest)).length < fuel) :
    blockStatements statement fuel
        (writtenStatements statements ++ (closing.render .slash ++ '\x7d' :: rest)) =
      .ok ((statements.map (·.renewed Tree.renewed), closing.renewed), rest) := by
  induction statements generalizing fuel with
  | nil =>
      obtain ⟨fuel, rfl⟩ : ∃ less, fuel = less + 1 := ⟨fuel - 1, by omega⟩
      have solid : Text.isSolid ('\x7d' :: rest) = true :=
        isSolid_of_punctuation (by decide) (by decide) rest
      have readGap := gap_render isGap solid fun isFinal => by cases isFinal
      rw [writtenStatements, List.flatMap_nil, List.nil_append, blockStatements, bind_get,
        bind_of_ok readGap, bind_of_ok (accept_cons _ _), if_pos rfl, run_pure]
      rfl
  | cons first others ih =>
      obtain ⟨fuel, rfl⟩ : ∃ less, fuel = less + 1 := ⟨fuel - 1, by omega⟩
      have nonempty := List.length_pos_iff.2 (writtenStatement_ne_nil sound.head)
      have whole : writtenStatements (first :: others) ++ (closing.render .slash ++ '\x7d' :: rest) =
          writtenStatement first ++
            (writtenStatements others ++ (closing.render .slash ++ '\x7d' :: rest)) := by
        simp [writtenStatements]
      rw [whole] at short enough ⊢
      have after := afterStatement_first sound (wordNext_brace isGap rest)
      have readFirst := complete sound.head after short
      rw [List.length_append] at short enough
      have readOthers := ih sound.tail (by omega) (show _ < fuel by omega)
      have starts := (statement_starts sound.head
        (writtenStatements others ++ (closing.render .slash ++ '\x7d' :: rest))).1
      obtain ⟨noBrace, notEnd⟩ := dropStart?_of_opensStatement starts
      rw [blockStatements, bind_get, bind_of_ok (gap_statement sound.head _),
        bind_of_ok (accept_of_none noBrace), if_neg Bool.false_ne_true, bind_get, if_neg notEnd,
        bind_set, bind_of_ok readFirst, bind_of_ok readOthers]
      rfl

/-- A written block is read back. -/
theorem block_complete
    (canonical : tree.IsCanonical)
    (isBlock : tree.form.isBlock = true)
    (short : (tree.form.written ++ rest).length ≤ bound) :
    block statement leading (tree.form.written ++ rest) = .ok (tree.placed leading, rest) := by
  obtain ⟨head, form⟩ := tree
  obtain ⟨statements, closing, rfl⟩ := Form.exists_of_isBlock isBlock
  obtain ⟨fits, separates, gaps, -, -, -⟩ := canonical.root
  have sound : SoundStatements statements := by
    refine ⟨fun padded member => ⟨fits.1 padded member, separates padded member, ?_, ?_⟩, fits.2⟩
    · exact gaps padded.after (List.mem_cons_of_mem _ (List.mem_map.2 ⟨padded, member, rfl⟩))
    · exact canonical.part (List.mem_map.2 ⟨padded, member, rfl⟩)
  have isGap : closing.IsGap := gaps closing (List.mem_cons_self ..)
  have whole : (Form.block statements closing).written ++ rest =
      '\x7b' :: (writtenStatements statements ++ (closing.render .slash ++ '\x7d' :: rest)) := by
    simp
  rw [Tree.form_node, whole] at short ⊢
  rw [List.length_cons] at short
  have readStatements := blockStatements_complete complete sound isGap (Nat.lt_of_succ_le short)
    (Nat.lt_succ_self _)
  rw [block, bind_of_ok (expect_cons _ _), bind_get, bind_of_ok readStatements]
  rfl

/-! ## Conditionals -/

omit complete in
/-- Without an `else`, no alternative is read. -/
theorem alternative_none
    {word : Text}
    (next : WordNext rest word)
    (other : word ≠ "else".toList) :
    alternative statement rest = .ok (none, rest) := by
  obtain ⟨run, after, scanned, rfl⟩ := next
  have readGap : gap rest = .ok (.format run, after) := gap_eq_ok.2 ⟨run, scanned, rfl⟩
  rw [alternative, bind_get, bind_of_ok readGap, bind_of_ok (isKeywordNext_eq isKeyword_else after),
    if_neg fun found => other (of_decide_eq_true found), bind_set, run_pure]

/-- A written alternative is read back. -/
theorem alternative_complete
    {other : Tree}
    (part : other.IsPart)
    (isOtherwise : other.form.isOtherwise = true)
    (after : AfterStatement other rest)
    (short : (other.written ++ rest).length < bound) :
    alternative statement (other.written ++ rest) = .ok (some other.renewed, rest) := by
  obtain ⟨body, form, sound, endsOpen, apart⟩ := exists_body_of_isOtherwise part isOtherwise
  obtain ⟨solid, word⟩ := else_next (apart rest)
  have whole : (Form.otherwise body).written ++ rest =
      "else".toList ++ (writtenStatement body ++ rest) := by
    simp
  have afterBody : AfterStatement body.element rest := by
    rwa [AfterStatement, endsOpen] at after
  have readBody := complete sound afterBody <| by
    rw [Tree.written_eq, List.append_assoc, form, whole] at short
    simp only [List.length_append] at short ⊢
    omega
  have readGap := gap_render part.leading solid fun isFinal => by cases isFinal
  have readElse : expect "else".toList ("else".toList ++ (writtenStatement body ++ rest)) =
      .ok ((), writtenStatement body ++ rest) :=
    expect_eq_ok.2 rfl
  rw [Tree.written_eq, List.append_assoc, form, alternative, bind_get, bind_of_ok readGap,
    bind_of_ok (isKeywordNext_eq isKeyword_else _), if_pos (decide_eq_true word), whole,
    bind_of_ok readElse, bind_of_ok readBody, run_pure, part.renewed, Tree.placed, form]
  rfl

/-- A written conditional is read back. -/
theorem conditional_complete
    {condition : Tree}
    {consequence : RightPadded Tree}
    {other : Option Tree}
    (canonical : tree.IsCanonical)
    (form : tree.form = .conditional condition consequence other)
    (after : AfterStatement tree rest)
    (short : (tree.form.written ++ rest).length ≤ bound) :
    conditional statement leading (tree.form.written ++ rest) = .ok (tree.placed leading, rest) := by
  obtain ⟨fits, closes, gaps, -, -, -⟩ := canonical.root
  have conditionPart : condition.IsPart := canonical.part (by simp [form, Form.children])
  have consequencePart : consequence.element.IsPart := canonical.part (by simp [form, Form.children])
  have otherPart : forall present, other = some present -> present.IsPart := by
    rintro present rfl
    exact canonical.part (by simp [form, Form.children])
  rw [form] at fits closes gaps
  obtain ⟨isParentheses, fitsConsequence, fitsOther⟩ := fits
  have sound : SoundStatement consequence :=
    ⟨fitsConsequence, closes, gaps _ (List.mem_singleton_self _), consequencePart⟩
  have whole : (Form.conditional condition consequence other).written ++ rest =
      "if".toList ++ (condition.leading.render .slash ++ (condition.form.written ++
        (writtenStatement consequence ++ (writtenOption other ++ rest)))) := by
    simp [Tree.written_eq]
  have solid : Text.isSolid (condition.form.written ++
      (writtenStatement consequence ++ (writtenOption other ++ rest))) = true :=
    isSolid_of_opensValue <| Text.startsIn_append
      (startsIn_opensValue conditionPart.canonical (.inl (Form.isValue_of_isParentheses isParentheses))) _
  have readGap := gap_render conditionPart.leading solid fun isFinal => by cases isFinal
  have readCondition : parentheses Parser.expression condition.leading.renewed
      (condition.form.written ++ (writtenStatement consequence ++ (writtenOption other ++ rest))) =
        .ok (condition.placed condition.leading.renewed,
          writtenStatement consequence ++ (writtenOption other ++ rest)) :=
    parentheses_complete (isComplete_expression _) conditionPart.canonical isParentheses
      (Nat.le_refl _)
  have readIf : expect "if".toList ("if".toList ++ (condition.leading.render .slash ++
      (condition.form.written ++ (writtenStatement consequence ++ (writtenOption other ++ rest))))) =
        .ok ((), condition.leading.render .slash ++ (condition.form.written ++
          (writtenStatement consequence ++ (writtenOption other ++ rest)))) :=
    expect_eq_ok.2 rfl
  rw [form, whole] at short ⊢
  simp only [List.length_append] at short
  have ifLength : "if".toList.length = 2 := by decide
  have placed : tree.placed leading =
      .spaced leading ((Form.conditional condition consequence other).renewed Tree.renewed) := by
    rw [Tree.placed, form]
  rw [conditional, bind_of_ok readIf, bind_of_ok readGap, bind_of_ok readCondition]
  cases other with
  | none =>
      have isOpen : tree.endsOpen = true := by rw [Tree.endsOpen_eq, form]
      obtain ⟨word, next, notElse⟩ := after
      rw [writtenOption, List.nil_append]
      rw [writtenOption, List.length_nil] at short
      have readConsequence := complete sound ⟨word, next, fun _ => notElse isOpen⟩ <| by
        rw [List.length_append]
        omega
      rw [bind_of_ok readConsequence, bind_of_ok (alternative_none next (notElse isOpen)), run_pure,
        placed, Form.renewed, conditionPart.renewed]
      rfl
  | some other =>
      obtain ⟨isOtherwise, closed⟩ := fitsOther other rfl
      have part := otherPart other rfl
      have endsOpen : tree.endsOpen = other.endsOpen := by rw [Tree.endsOpen_eq, form]
      have afterOther : AfterStatement other rest := by
        rwa [AfterStatement, endsOpen] at after
      obtain ⟨body, otherForm, -, -, apart⟩ := exists_body_of_isOtherwise part isOtherwise
      obtain ⟨otherSolid, otherWord⟩ := else_next (apart rest)
      have afterConsequence : AfterStatement consequence.element (other.written ++ rest) := by
        refine ⟨"else".toList, ⟨other.leading.render .slash, other.form.written ++ rest, ?_, ?_⟩, ?_⟩
        · rw [Tree.written_eq, List.append_assoc, otherForm]
          exact scanGap_render part.leading otherSolid fun isFinal => by cases isFinal
        · rw [otherForm, otherWord]
        · simp [closed]
      rw [writtenOption] at short ⊢
      have readConsequence := complete sound afterConsequence <| by
        simp only [List.length_append]
        omega
      have readOther := alternative_complete complete part isOtherwise afterOther <| by
        simp only [List.length_append]
        omega
      rw [bind_of_ok readConsequence, bind_of_ok readOther, run_pure, placed, Form.renewed,
        conditionPart.renewed]
      rfl

end Nested

end Java
end Lossless
