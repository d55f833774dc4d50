import Lossless.Proofs.Java.Complete.Block

/-!
# Declarations, statements and units are read back

Every canonical unit is read back from what it prints as.
-/

namespace Lossless
namespace Java

open Lossless.Parser
open Java.Parser

variable {text rest : Text} {leading : Space} {tree : Tree} {padded : RightPadded Tree}

/-!
## Declarations are read back

A declaration is told by two words with an opening parenthesis behind them. Behind the first word of a value
there is a sign, or nothing at all, so no value is taken for a declaration.
-/

/-! ### Words -/

/-- No word goes on in a gap with a sign behind it. -/
theorem EndsWords.of_gap
    {space : Space}
    {first : Char}
    {after : Text}
    (isGap : space.IsGap)
    (member : first ∈ punctuation)
    (solid : Text.isSolid (first :: after) = true) :
    EndsWords (space.render .slash ++ first :: after) := by
  refine ⟨startsIn_render_cons isGap first member after, space.render .slash, first :: after, ?_, ?_⟩
  · exact scanGap_render isGap solid fun isFinal => by cases isFinal
  · refine Bool.eq_false_iff.2 fun starts => ?_
    have inside := Text.isIdentifierPart_of_isIdentifierStart starts
    rw [isIdentifierPart_of_punctuation member] at inside
    cases inside

theorem EndsValue.endsWords
    (ends : EndsValue text) :
    EndsWords text := by
  obtain ⟨space, close, after, isGap, member, rfl⟩ := ends
  exact .of_gap isGap (mem_punctuation_of_mem_closers member) (isSolid_of_closer member after)

/-- No word goes on in a gap with an operator behind it. -/
theorem EndsWords.of_symbol
    {space : Space}
    {operator : Operator}
    (isGap : space.IsGap)
    (solid : Text.isSolid (operator.symbol .java ++ rest) = true) :
    EndsWords (space.render .slash ++ (operator.symbol .java ++ rest)) := by
  obtain ⟨first, more, symbol, member⟩ : ∃ first more,
      operator.symbol .java = first :: more ∧ first ∈ punctuation := by
    cases operator <;> exact ⟨_, _, rfl, by decide⟩
  rw [symbol, List.cons_append] at solid ⊢
  exact .of_gap isGap member solid

/-- A number starts with no word. -/
theorem startsIn_of_isNumber
    {source : Text}
    (isNumber : isNumber source = true)
    (rest : Text) :
    (source ++ rest).startsIn Text.isIdentifierStart = false := by
  cases source with
  | nil => cases isNumber
  | cons first more =>
      rw [Java.isNumber, Bool.and_eq_true] at isNumber
      refine Bool.eq_false_iff.2 fun starts => ?_
      obtain ⟨noSign, noDigit⟩ := ne_of_isIdentifierStart starts
      have isStart := isNumber.1
      unfold isNumberStart at isStart
      split at isStart
      · next equal =>
          obtain ⟨rfl, -⟩ := List.cons.inj equal
          exact noSign (by decide)
      · next equal =>
          obtain ⟨rfl, -⟩ := List.cons.inj equal
          rw [noDigit] at isStart
          cases isStart
      · cases isStart

/-- A literal between quotes starts with no word. -/
theorem startsIn_of_isQuoted
    {source : Text}
    (isQuoted : isQuoted source = true)
    (rest : Text) :
    (source ++ rest).startsIn Text.isIdentifierStart = false := by
  cases source with
  | nil => cases isQuoted
  | cons first more =>
      rw [Java.isQuoted, Bool.and_eq_true, Bool.or_eq_true] at isQuoted
      refine Bool.eq_false_iff.2 fun starts => (ne_of_isIdentifierStart starts).1 ?_
      rcases isQuoted.1 with isQuote | isQuote <;> simp [of_decide_eq_true isQuote]

/-- Words as a tree: a name, or several words as they are written. -/
theorem exists_words
    (canonical : tree.IsCanonical)
    (isWords : tree.form.isWords = true) :
    ∃ first more, isName first = true ∧ (forall pair, pair ∈ more -> IsSpacedWord pair) ∧
      tree.form.written = first ++ writtenWords more ∧
      tree.form = match more with
        | [] => .identifier first none
        | more => .unknown (first ++ writtenWords more) := by
  obtain ⟨head, form⟩ := tree
  have fits := canonical.root.fits
  cases form with
  | identifier name typeTag =>
      obtain ⟨isName, rfl⟩ := fits
      exact ⟨name, [], isName, by simp, by simp [writtenWords], rfl⟩
  | unknown text =>
      obtain ⟨first, more, isName, several, spaced, rfl⟩ := fits
      refine ⟨first, more, isName, spaced, by simp, ?_⟩
      cases more with
      | nil => exact absurd rfl several
      | cons pair others => rfl
  | _ => cases isWords

/-- A written parameter is read back. -/
theorem parameter_complete (bound : Nat) : IsComplete Form.isWords bound parameter := by
  intro leading tree rest canonical isWords ends _
  obtain ⟨first, more, isName, spaced, written, form⟩ := exists_words canonical isWords
  have readWords := words_complete isName spaced ends.endsWords
  rw [written, List.append_assoc, parameter, bind_of_ok readWords, Tree.placed, form]
  cases more <;> rfl

/-! ### Declarations -/

section Declaration

variable {statement : Parser (RightPadded Tree)} {bound : Nat}

/-- The type of a declaration is renewed as the words before its name are read. -/
theorem returnType_complete
    {first : Text}
    {more : List (Text × Text)}
    (part : tree.IsPart)
    (noSpace : tree.leading.isEmpty = true)
    (form : tree.form = match more with
      | [] => .identifier first none
      | more => .unknown (first ++ writtenWords more)) :
    tree.renewed = returnType first more := by
  rw [Tree.renewed_eq_placed_empty part.unmarked noSpace, Tree.placed, form]
  cases more <;> rfl

/-- No body is read where a semicolon ends the declaration. -/
theorem body?_none
    {after : Space}
    (isGap : after.IsGap)
    (rest : Text) :
    declaration?.body? statement (after.render .slash ++ ';' :: rest) =
      .ok (none, after.render .slash ++ ';' :: rest) := by
  have solid : Text.isSolid (';' :: rest) = true := isSolid_of_closer (by decide) rest
  have looked := isNextAfterGap_render isGap solid (fun isFinal => by cases isFinal) ['\x7b']
  rw [declaration?.body?, bind_of_ok looked, if_neg (by simp [Text.dropStart?]), run_pure]

variable (complete : IsCompleteStatement bound statement)

include complete

/-- A written body is read back. -/
theorem body?_complete
    {body : Tree}
    (part : body.IsPart)
    (isBlock : body.form.isBlock = true)
    (short : (body.written ++ rest).length ≤ bound) :
    declaration?.body? statement (body.written ++ rest) = .ok (some body.renewed, rest) := by
  have readBlock : block statement body.leading.renewed (body.form.written ++ rest) =
      .ok (body.placed body.leading.renewed, rest) := by
    refine block_complete complete part.canonical isBlock ?_
    rw [Tree.written_eq] at short
    simp only [List.length_append] at short ⊢
    omega
  obtain ⟨statements, closing, form⟩ := Form.exists_of_isBlock isBlock
  have starts : body.form.written ++ rest = '\x7b' :: (body.form.written ++ rest).tail := by
    rw [form, Form.written_block]
    rfl
  have solid : Text.isSolid (body.form.written ++ rest) = true := by
    rw [starts]
    exact isSolid_of_punctuation (by decide) (by decide) _
  have found : (Text.dropStart? ['\x7b'] (body.form.written ++ rest)).isSome = true := by
    rw [starts]
    simp [Text.dropStart?]
  have looked := isNextAfterGap_render part.leading solid (fun isFinal => by cases isFinal) ['\x7b']
  have readGap := gap_render part.leading solid fun isFinal => by cases isFinal
  rw [Tree.written_eq, List.append_assoc, declaration?.body?, bind_of_ok looked, if_pos found,
    bind_of_ok readGap, bind_of_ok readBlock, run_pure, part.renewed]

/-- A written declaration is read back, up to its body or to the semicolon. -/
theorem declaration?_complete
    {returns : Option Tree}
    {name : Tree}
    {parameters : Container Tree}
    {body : Option Tree}
    (canonical : tree.IsCanonical)
    (form : tree.form = .declaration returns name parameters body)
    (ends : body = none -> ∃ (after : Space) (more : Text),
      after.IsGap ∧ rest = after.render .slash ++ ';' :: more)
    (short : (tree.form.written ++ rest).length ≤ bound) :
    declaration? statement leading (tree.form.written ++ rest) =
      .ok (some (tree.placed leading), rest) := by
  obtain ⟨fits, separates, gaps, -, -, -⟩ := canonical.root
  have parts : forall child, child ∈ (Form.declaration returns name parameters body).children ->
      child.IsPart := by
    rw [← form]
    exact fun child member => canonical.part member
  rw [form] at fits separates gaps
  obtain ⟨⟨returns, rfl, isWords, -⟩, isIdentifier, fitsParameters, fitsBody⟩ := fits
  obtain ⟨noSpace, spaced, closes⟩ := separates
  have returnsPart : returns.IsPart := parts returns (by simp [Form.children])
  have namePart : name.IsPart := parts name (by simp [Form.children])
  have beforeIsGap : parameters.before.IsGap := gaps _ (by simp [Form.gaps])
  have soundParameters : SoundContainer Form.isWords parameters := by
    refine ⟨fitsParameters, closes, fun space member => gaps space ?_, fun child member => parts child ?_⟩
    · exact List.mem_cons_of_mem _ member
    · simp [Form.children, member]
  obtain ⟨first, more, isName, areSpaced, written, returnsForm⟩ :=
    exists_words returnsPart.canonical isWords
  obtain ⟨last, lastIsName, nameForm, nameRenewed⟩ := exists_name_of_isIdentifier namePart isIdentifier
  have lastSpaced : IsSpacedWord (name.leading.render .slash, last) :=
    ⟨lastIsName, name.leading, namePart.leading, spaced, rfl⟩
  have allSpaced : forall pair, pair ∈ more ++ [(name.leading.render .slash, last)] ->
      IsSpacedWord pair := by
    simpa [or_imp, forall_and] using ⟨fun run word member => areSpaced (run, word) member, lastSpaced⟩
  have returnsRenewed := returnType_complete returnsPart (noSpace returns rfl) returnsForm
  have whole : tree.form.written ++ rest =
      first ++ (writtenWords (more ++ [(name.leading.render .slash, last)]) ++
        (parameters.before.render .slash ++ '(' :: (writtenElements parameters.padded ++
          ')' :: (writtenOption body ++ rest)))) := by
    rw [form, Form.written_declaration, writtenOption, Tree.written_of_isEmpty (noSpace returns rfl),
      written, Tree.written_eq name, nameForm]
    simp [writtenWords, writtenContainer]
  have solid : Text.isSolid ('(' :: (writtenElements parameters.padded ++
      ')' :: (writtenOption body ++ rest))) = true :=
    isSolid_of_punctuation (by decide) (by decide) _
  have starts := isIdentifierNext_eq_ok.2 ⟨startsIn_append_of_isName isName
    (writtenWords (more ++ [(name.leading.render .slash, last)]) ++
      (parameters.before.render .slash ++ '(' :: (writtenElements parameters.padded ++
        ')' :: (writtenOption body ++ rest)))), rfl⟩
  have readWords := words_complete isName allSpaced (.of_gap beforeIsGap (by decide) solid)
  have looked := isNextAfterGap_render beforeIsGap solid (fun isFinal => by cases isFinal) ['(']
  have readGap := gap_render beforeIsGap solid fun isFinal => by cases isFinal
  have readList : container parameter parameters.before.renewed (['('], [')'])
      ('(' :: (writtenElements parameters.padded ++ ')' :: (writtenOption body ++ rest))) =
        .ok (⟨parameters.before.renewed, parameters.padded.map (·.renewed Tree.renewed), .empty⟩,
          writtenOption body ++ rest) :=
    container_complete (parameter_complete _) .inr (.inl rfl) soundParameters
      parameters.before.renewed (Nat.lt_succ_self _)
  have readBody : declaration?.body? statement (writtenOption body ++ rest) =
      .ok (body.map Tree.renewed, rest) := by
    cases body with
    | none =>
        obtain ⟨after, more, isGap, rfl⟩ := ends rfl
        exact body?_none isGap more
    | some body =>
        refine body?_complete complete (parts body (by simp [Form.children])) (fitsBody body rfl) ?_
        rw [whole] at short
        simp only [writtenOption, List.length_append, List.length_cons] at short ⊢
        omega
  rw [whole, declaration?, bind_get, bind_of_ok starts, if_pos rfl, bind_of_ok readWords]
  simp only [List.getLast?_concat, List.dropLast_concat]
  rw [bind_of_ok looked, if_pos (by simp [Text.dropStart?]), bind_of_ok readGap, bind_of_ok readList,
    bind_of_ok readBody, run_pure, ← returnsRenewed, Space.format_render namePart.leading,
    ← nameRenewed, Tree.placed, form, Form.renewed, Container.renewed,
    Markers.renewed_of_toList fitsParameters.1]
  rfl

omit complete

/-- After the first word of a value no word goes on. -/
theorem exists_word_of_value
    (canonical : tree.IsCanonical)
    (kind : tree.form.isValue = true ∨ tree.form.isIdentifier = true)
    (ends : EndsWords rest)
    (starts : (tree.form.written ++ rest).startsIn Text.isIdentifierStart = true) :
    ∃ name behind, isName name = true ∧ tree.form.written ++ rest = name ++ behind ∧
      EndsWords behind := by
  induction tree using Tree.induction generalizing rest with
  | step head form ih =>
      obtain ⟨⟨fits, separates, gaps, leadings, -, -⟩, below⟩ := (Tree.isCanonical_iff _).1 canonical
      rw [Tree.form_node] at kind starts ⊢
      cases form with
      | identifier name typeTag => exact ⟨name, rest, fits.1, by simp, ends⟩
      | literal source typeTag =>
          rw [Form.written_literal] at starts ⊢
          have fits := fits.1
          simp only [Bool.or_eq_true] at fits
          rcases fits with (isLiteral | isNumber) | isQuoted
          · exact ⟨source, rest, isName_of_isLiteralWord isLiteral, rfl, ends⟩
          · rw [startsIn_of_isNumber isNumber] at starts
            cases starts
          · rw [startsIn_of_isQuoted isQuoted] at starts
            cases starts
      | assignment target value typeTag =>
          have isGap := gaps value.before (by simp [Form.gaps])
          have solid : Text.isSolid ('=' :: (value.element.written ++ rest)) = true :=
            isSolid_of_punctuation (by decide) (by decide) _
          have inside := ih target (by simp [Form.children]) (below target (by simp [Form.children]))
            (.inl (Form.isValue_of_isOperand fits.1)) (EndsWords.of_gap isGap (by decide) solid)
          simp only [Form.written_assignment, Tree.written_of_isEmpty separates, List.append_assoc,
            List.cons_append] at starts ⊢
          exact inside starts
      | binary left operator right typeTag =>
          have rightPart := canonical.part (show right ∈ _ by simp [Form.children])
          have opens := startsIn_opensValue rightPart.canonical
            (.inl (Form.isValue_of_isOperand fits.2.1.1))
          have solid := isSolid_symbol operator.element rightPart.leading
            (Text.startsIn_append opens rest) separates.2
          have ends := EndsWords.of_symbol (gaps operator.before (by simp [Form.gaps])) solid
          have inside := ih left (by simp [Form.children]) (below left (by simp [Form.children]))
            (.inl (Form.isValue_of_isOperand fits.1.1)) ends
          simp only [Form.written_binary, Tree.written_of_isEmpty separates.1, Tree.written_eq right,
            List.append_assoc] at starts ⊢
          exact inside starts
      | fieldAccess target name typeTag =>
          have isGap := gaps name.before (by simp [Form.gaps])
          have solid : Text.isSolid ('.' :: (name.element.written ++ rest)) = true :=
            isSolid_of_punctuation (by decide) (by decide) _
          have inside := ih target (by simp [Form.children]) (below target (by simp [Form.children]))
            (.inl (Form.isValue_of_isChain fits.1)) (EndsWords.of_gap isGap (by decide) solid)
          simp only [Form.written_fieldAccess, Tree.written_of_isEmpty separates.1, List.append_assoc,
            List.cons_append] at starts ⊢
          exact inside starts
      | call receiver name arguments typeTag =>
          cases receiver with
          | some receiver =>
              have isGap := gaps receiver.after (by simp [Form.gaps])
              have solid : Text.isSolid ('.' :: (name.written ++
                  (writtenContainer (['('], [')']) arguments ++ rest))) = true :=
                isSolid_of_punctuation (by decide) (by decide) _
              have inside := ih receiver.element (by simp [Form.children])
                (below receiver.element (by simp [Form.children]))
                (.inl (Form.isValue_of_isChain fits.1.1)) (EndsWords.of_gap isGap (by decide) solid)
              simp only [Form.written_call, writtenReceiver, Tree.written_of_isEmpty separates.1,
                List.append_assoc, List.cons_append, List.nil_append] at starts ⊢
              exact inside starts
          | none =>
              have isGap := gaps arguments.before (by simp [Form.gaps])
              have solid : Text.isSolid ('(' :: (writtenElements arguments.padded ++ ')' :: rest)) =
                  true :=
                isSolid_of_punctuation (by decide) (by decide) _
              have inside := ih name (by simp [Form.children]) (below name (by simp [Form.children]))
                (.inr fits.2.1) (EndsWords.of_gap isGap (by decide) solid)
              simp only [Form.written_call, writtenReceiver, writtenContainer,
                Tree.written_of_isEmpty separates.1, List.append_assoc, List.cons_append,
                List.nil_append] at starts ⊢
              exact inside starts
      | parentheses inner =>
          rw [Form.written_parentheses] at starts
          change Text.isIdentifierStart '(' = true at starts
          exact absurd starts (by decide)
      | collection kind elements typeTag =>
          obtain ⟨rfl, -⟩ := fits
          rw [Form.written_collection, writtenContainer, (Space.render_eq_nil_iff _).2 separates.1]
            at starts
          change Text.isIdentifierStart '[' = true at starts
          exact absurd starts (by decide)
      | _ => simp [Form.isValue, Form.isOperand, Form.isIdentifier] at kind

/-- No value is read as a declaration. -/
theorem declaration?_none
    (canonical : tree.IsCanonical)
    (isValue : tree.form.isValue = true)
    (ends : EndsWords rest) :
    declaration? statement leading (tree.form.written ++ rest) =
      .ok (none, tree.form.written ++ rest) := by
  have looked : isIdentifierNext (tree.form.written ++ rest) =
      .ok ((tree.form.written ++ rest).startsIn Text.isIdentifierStart, tree.form.written ++ rest) :=
    isIdentifierNext_eq_ok.2 ⟨rfl, rfl⟩
  rw [declaration?, bind_get, bind_of_ok looked]
  cases starts : (tree.form.written ++ rest).startsIn Text.isIdentifierStart with
  | false => rw [if_neg Bool.false_ne_true, run_pure]
  | true =>
      obtain ⟨name, behind, isName, whole, endsName⟩ :=
        exists_word_of_value canonical (.inl isValue) ends starts
      have noMore : forall pair, pair ∈ ([] : List (Text × Text)) -> IsSpacedWord pair := by simp
      have readWords : words (name ++ behind) = .ok ((name, []), behind) :=
        words_complete isName noMore endsName
      rw [if_pos rfl, whole, bind_of_ok readWords]
      rfl

end Declaration

/-!
## Statements are read back

A statement of each kind, and whole sources. A canonical unit is read back as a new unit.
-/

/-! ### Returns -/

/-- The semicolon of a statement is read back. -/
theorem terminated_complete
    {after : Space}
    (isGap : after.IsGap)
    (tree : Tree)
    (rest : Text) :
    terminated tree (after.render .slash ++ ';' :: rest) =
      .ok (⟨tree, after.renewed, .empty⟩, rest) := by
  have solid : Text.isSolid (';' :: rest) = true := isSolid_of_closer (by decide) rest
  have readGap := gap_render isGap solid fun isFinal => by cases isFinal
  rw [terminated, bind_of_ok readGap, bind_of_ok (expect_cons _ _), run_pure]

/-- A written return is read back. -/
theorem returns_complete
    {value : Option Tree}
    {after : Space}
    (canonical : tree.IsCanonical)
    (form : tree.form = .returns value)
    (isGap : after.IsGap) :
    returns leading (tree.form.written ++ (after.render .slash ++ ';' :: rest)) =
      .ok (tree.placed leading, after.render .slash ++ ';' :: rest) := by
  have fits := canonical.root.fits
  have readReturn : expect "return".toList ("return".toList ++
      (writtenOption value ++ (after.render .slash ++ ';' :: rest))) =
        .ok ((), writtenOption value ++ (after.render .slash ++ ';' :: rest)) :=
    expect_eq_ok.2 rfl
  have placed : tree.placed leading = .spaced leading ((Form.returns value).renewed Tree.renewed) := by
    rw [Tree.placed, form]
  rw [form] at fits
  rw [form, Form.written_returns, List.append_assoc, returns, bind_of_ok readReturn, placed]
  cases value with
  | none =>
      have looked := isNextAfterGap_render isGap (isSolid_of_closer (show ';' ∈ closers by decide) rest)
        (fun isFinal => by cases isFinal) [';']
      rw [writtenOption, List.nil_append, bind_of_ok looked, if_pos (by simp [Text.dropStart?]),
        run_pure]
      rfl
  | some value =>
      have isValue := fits value rfl
      have part : value.IsPart := canonical.part (by simp [form, Form.children])
      have starts := startsIn_opensValue part.canonical (.inl isValue)
      have opens := Text.startsIn_append starts (after.render .slash ++ ';' :: rest)
      have solid := isSolid_of_opensValue opens
      have noSign := dropStart?_of_opensValue opens (show ';' ∈ _ by decide) []
      have looked := isNextAfterGap_render part.leading solid (fun isFinal => by cases isFinal) [';']
      have readGap := gap_render part.leading solid fun isFinal => by cases isFinal
      have readValue : Parser.expression value.leading.renewed
          (value.form.written ++ (after.render .slash ++ ';' :: rest)) =
            .ok (value.placed value.leading.renewed, after.render .slash ++ ';' :: rest) :=
        expression_complete part.canonical isValue (.of_gap isGap (by decide) rest)
      rw [noSign] at looked
      rw [writtenOption, Tree.written_eq, List.append_assoc, bind_of_ok looked,
        if_neg (by simp), bind_of_ok readGap, bind_of_ok readValue, run_pure, ← part.renewed]
      rfl

/-! ### All statements -/

section Statement

variable {statement : Parser (RightPadded Tree)} {bound : Nat}

/-- Behind the gap, a statement is told by its first character or by its first word. -/
theorem statementStep_eq
    {after : Text}
    (readGap : gap text = .ok (leading, after))
    (noBrace : Text.dropStart? ['\x7b'] after = none) :
    statementStep statement text =
      if after.takeWhile Text.isIdentifierPart = "if".toList then
        (do return .build (<- conditional statement leading) : Parser (RightPadded Tree)) after
      else
        (do
          if <- accept [';'] then return .build (.spaced leading .empty)
          else if <- isKeywordNext "return".toList then terminated (<- returns leading)
          else declarationOrExpression statement leading : Parser (RightPadded Tree)) after := by
  have inside : "if".toList.all Text.isIdentifierPart = true := by decide
  have looked := isNext_eq ['\x7b'] after
  rw [noBrace] at looked
  rw [statementStep, bind_of_ok readGap, bind_of_ok looked, if_neg (by simp),
    bind_of_ok (isKeywordNext_eq inside after)]
  by_cases isIf : after.takeWhile Text.isIdentifierPart = "if".toList
  · rw [if_pos isIf, if_pos (decide_eq_true isIf)]
  · rw [if_neg isIf, if_neg fun found => isIf (of_decide_eq_true found)]

/-- A statement that ends by itself is written as its form. -/
theorem statementBody_of_isSelfTerminated
    (sound : SoundStatement padded)
    (isSelfTerminated : padded.element.form.isSelfTerminated = true)
    (rest : Text) :
    statementBody padded rest = padded.element.form.written ++ rest ∧
      padded.renewed Tree.renewed =
        .build (padded.element.placed padded.element.leading.renewed) := by
  have noSpace : padded.after.isEmpty = true := sound.closes (.inl isSelfTerminated)
  constructor
  · rw [statementBody, statementSign, isSelfTerminated, (Space.render_eq_nil_iff _).2 noSpace]
    rfl
  · rw [RightPadded.renewed, sound.part.renewed, Space.renewed_of_isEmpty noSpace,
      Markers.renewed_of_toList sound.fits.2]
    rfl

/-- Any other statement is written with a semicolon. -/
theorem statementBody_of_sign
    (sound : SoundStatement padded)
    (needsSign : padded.element.form.isSelfTerminated = false)
    (rest : Text) :
    statementBody padded rest =
        padded.element.form.written ++ (padded.after.render .slash ++ ';' :: rest) ∧
      padded.renewed Tree.renewed =
        ⟨padded.element.placed padded.element.leading.renewed, padded.after.renewed, .empty⟩ := by
  constructor
  · rw [statementBody, statementSign, needsSign]
    rfl
  · rw [RightPadded.renewed, sound.part.renewed, Markers.renewed_of_toList sound.fits.2]

/-- An expression statement is read back. -/
theorem statementStep_value
    (sound : SoundStatement padded)
    (isValue : padded.element.form.isValue = true)
    (noKeyword : isStatementWord padded.element.firstWord = false)
    (rest : Text) :
    statementStep statement (writtenStatement padded ++ rest) =
      .ok (padded.renewed Tree.renewed, rest) := by
  obtain ⟨body, renewed⟩ := statementBody_of_sign sound (closes_of_isValue isValue).1 rest
  have readGap := gap_statement sound rest
  have word := (statement_starts sound rest).2
  have canonical := sound.part.canonical
  have opens := Text.startsIn_append (startsIn_opensValue canonical (.inl isValue))
    (padded.after.render .slash ++ ';' :: rest)
  have ends : EndsValue (padded.after.render .slash ++ ';' :: rest) :=
    .of_gap sound.isGap (by decide) rest
  simp only [isStatementWord, Bool.or_eq_false_iff, decide_eq_false_iff_not] at noKeyword
  obtain ⟨⟨notIf, notReturn⟩, notElse⟩ := noKeyword
  rw [body] at readGap word
  have isReturn := isKeywordNext_eq (show "return".toList.all Text.isIdentifierPart = true by decide)
    (padded.element.form.written ++ (padded.after.render .slash ++ ';' :: rest))
  have isElse := isKeywordNext_eq isKeyword_else
    (padded.element.form.written ++ (padded.after.render .slash ++ ';' :: rest))
  rw [word] at isReturn isElse
  rw [statementStep_eq readGap (dropStart?_of_opensValue opens (by decide) []), word, if_neg notIf,
    bind_of_ok (accept_of_none (dropStart?_of_opensValue opens (by decide) [])),
    if_neg Bool.false_ne_true, bind_of_ok isReturn, if_neg (mt of_decide_eq_true notReturn),
    declarationOrExpression, bind_of_ok (declaration?_none canonical isValue ends.endsWords)]
  dsimp only
  rw [bind_of_ok isElse, if_neg (mt of_decide_eq_true notElse),
    bind_of_ok (expression_complete canonical isValue ends), terminated_complete sound.isGap, renewed]

/-- The empty statement is read back. -/
theorem statementStep_empty
    (sound : SoundStatement padded)
    (form : padded.element.form = .empty)
    (rest : Text) :
    statementStep statement (writtenStatement padded ++ rest) =
      .ok (padded.renewed Tree.renewed, rest) := by
  have noSpace : padded.after.isEmpty = true := sound.closes (.inr (by rw [form]; rfl))
  obtain ⟨body, renewed⟩ := statementBody_of_sign sound (by rw [form]; rfl) rest
  have readGap := gap_statement sound rest
  have notPart : Text.isIdentifierPart ';' = false :=
    isIdentifierPart_of_punctuation (by decide)
  rw [body, form, Form.written_empty, (Space.render_eq_nil_iff _).2 noSpace] at readGap
  rw [statementStep_eq readGap (by simp [Text.dropStart?]), if_neg (by simp [notPart])]
  simp only [List.nil_append]
  rw [bind_of_ok (accept_cons _ _), if_pos rfl, run_pure, renewed, Tree.placed, form,
    Space.renewed_of_isEmpty noSpace]
  rfl

/-- A return is read back. -/
theorem statementStep_returns
    {value : Option Tree}
    (sound : SoundStatement padded)
    (form : padded.element.form = .returns value)
    (rest : Text) :
    statementStep statement (writtenStatement padded ++ rest) =
      .ok (padded.renewed Tree.renewed, rest) := by
  obtain ⟨body, renewed⟩ := statementBody_of_sign sound (by rw [form]; rfl) rest
  have readGap := gap_statement sound rest
  have word := (statement_starts sound rest).2
  have firstWord : padded.element.firstWord = "return".toList := by
    have whole : "return".toList.takeWhile Text.isIdentifierPart = "return".toList := by
      decide
    rw [Tree.firstWord, Tree.firstToken_eq, form]
    exact whole
  have starts : statementBody padded rest = 'r' :: (statementBody padded rest).tail := by
    rw [body, form, Form.written_returns]
    rfl
  have isReturn := isKeywordNext_eq (show "return".toList.all Text.isIdentifierPart = true by decide)
    (statementBody padded rest)
  have readReturn : returns padded.element.leading.renewed (statementBody padded rest) =
      .ok (padded.element.placed padded.element.leading.renewed,
        padded.after.render .slash ++ ';' :: rest) := by
    rw [body]
    exact returns_complete sound.part.canonical form sound.isGap
  have noSign : accept [';'] (statementBody padded rest) = .ok (false, statementBody padded rest) := by
    rw [starts]
    exact accept_of_none (by simp [Text.dropStart?])
  rw [statementStep_eq readGap (by rw [starts]; simp [Text.dropStart?]), word, firstWord,
    if_neg (by decide), bind_of_ok noSign, if_neg Bool.false_ne_true, bind_of_ok isReturn,
    if_pos (by simp [word, firstWord]), bind_of_ok readReturn, terminated_complete sound.isGap,
    renewed]

/-- A block, as a statement, is read back. -/
theorem statementStep_block
    (complete : IsCompleteStatement bound statement)
    (sound : SoundStatement padded)
    (isBlock : padded.element.form.isBlock = true)
    (short : (writtenStatement padded ++ rest).length ≤ bound) :
    statementStep statement (writtenStatement padded ++ rest) =
      .ok (padded.renewed Tree.renewed, rest) := by
  obtain ⟨statements, closing, form⟩ := Form.exists_of_isBlock isBlock
  obtain ⟨body, renewed⟩ := statementBody_of_isSelfTerminated sound (by rw [form]; rfl) rest
  have readGap := gap_statement sound rest
  have looked := isNext_eq ['\x7b'] (padded.element.form.written ++ rest)
  have readBlock : block statement padded.element.leading.renewed
      (padded.element.form.written ++ rest) =
        .ok (padded.element.placed padded.element.leading.renewed, rest) := by
    refine block_complete complete sound.part.canonical isBlock ?_
    rw [writtenStatement_append sound.fits, body, List.length_append] at short
    omega
  have found : (Text.dropStart? ['\x7b'] (padded.element.form.written ++ rest)).isSome = true := by
    rw [form, Form.written_block]
    simp [Text.dropStart?]
  rw [body] at readGap
  rw [statementStep, bind_of_ok readGap, bind_of_ok looked, if_pos found, bind_of_ok readBlock,
    run_pure, renewed]

/-- A conditional, as a statement, is read back. -/
theorem statementStep_conditional
    {condition : Tree}
    {consequence : RightPadded Tree}
    {other : Option Tree}
    (complete : IsCompleteStatement bound statement)
    (sound : SoundStatement padded)
    (form : padded.element.form = .conditional condition consequence other)
    (after : AfterStatement padded.element rest)
    (short : (writtenStatement padded ++ rest).length ≤ bound) :
    statementStep statement (writtenStatement padded ++ rest) =
      .ok (padded.renewed Tree.renewed, rest) := by
  obtain ⟨body, renewed⟩ := statementBody_of_isSelfTerminated sound (by rw [form]; rfl) rest
  have readGap := gap_statement sound rest
  have word := (statement_starts sound rest).2
  have firstWord : padded.element.firstWord = "if".toList := by
    have whole : "if".toList.takeWhile Text.isIdentifierPart = "if".toList := by decide
    rw [Tree.firstWord, Tree.firstToken_eq, form]
    exact whole
  have readConditional : conditional statement padded.element.leading.renewed
      (padded.element.form.written ++ rest) =
        .ok (padded.element.placed padded.element.leading.renewed, rest) := by
    refine conditional_complete complete sound.part.canonical form after ?_
    rw [writtenStatement_append sound.fits, body, List.length_append] at short
    omega
  have noBrace : Text.dropStart? ['\x7b'] (padded.element.form.written ++ rest) = none := by
    rw [form, Form.written_conditional]
    simp [Text.dropStart?]
  rw [body] at readGap word
  rw [statementStep_eq readGap noBrace, if_pos (word.trans firstWord), bind_of_ok readConditional,
    run_pure, renewed]

/-- A declaration, as a statement, is read back. -/
theorem statementStep_declaration
    {returnType : Option Tree}
    {name : Tree}
    {parameters : Container Tree}
    {body : Option Tree}
    (complete : IsCompleteStatement bound statement)
    (sound : SoundStatement padded)
    (form : padded.element.form = .declaration returnType name parameters body)
    (short : (writtenStatement padded ++ rest).length ≤ bound) :
    statementStep statement (writtenStatement padded ++ rest) =
      .ok (padded.renewed Tree.renewed, rest) := by
  have readGap := gap_statement sound rest
  obtain ⟨starts, word⟩ := statement_starts sound rest
  have canonical := sound.part.canonical
  have fits := canonical.root.fits
  rw [form] at fits
  obtain ⟨⟨returns, rfl, isWords, keyword⟩, -, -, -⟩ := fits
  have firstWord : padded.element.firstWord = returns.firstWord := by
    rw [Tree.firstWord, Tree.firstToken_eq, form, Tree.firstWord]
  have notKeyword : padded.element.firstWord ≠ "if".toList ∧
      padded.element.firstWord ≠ "return".toList := by
    rw [firstWord]
    constructor <;>
    · intro isKeyword
      have isElse := keyword (by rw [isKeyword]; decide)
      rw [isKeyword] at isElse
      revert isElse
      decide
  have returnsPart : returns.IsPart := canonical.part (by simp [form, Form.children])
  have opens : (statementBody padded rest).startsIn opensValue = true := by
    have noSpace := canonical.root.separates
    rw [form] at noSpace
    rw [statementBody, form, Form.written_declaration, writtenOption,
      Tree.written_of_isEmpty (noSpace.1 returns rfl), List.append_assoc]
    exact Text.startsIn_append (startsIn_opensValue returnsPart.canonical (.inr isWords)) _
  have isReturn := isKeywordNext_eq (show "return".toList.all Text.isIdentifierPart = true by decide)
    (statementBody padded rest)
  have enough : (statementBody padded rest).length ≤ bound := by
    rw [writtenStatement_append sound.fits, List.length_append] at short
    omega
  rw [statementStep_eq readGap (dropStart?_of_opensValue opens (by decide) []), word,
    if_neg notKeyword.1, bind_of_ok (accept_of_none (dropStart?_of_opensValue opens (by decide) [])),
    if_neg Bool.false_ne_true, bind_of_ok isReturn, if_neg (by simpa [word] using notKeyword.2),
    declarationOrExpression]
  have isBody : (padded.element.placed padded.element.leading.renewed).form.isSelfTerminated =
      body.isSome := by
    rw [Tree.placed, form]
    cases body <;> rfl
  cases body with
  | none =>
      obtain ⟨whole, renewed⟩ := statementBody_of_sign sound (by rw [form]; rfl) rest
      rw [whole] at enough ⊢
      have readDeclaration : declaration? statement padded.element.leading.renewed
          (padded.element.form.written ++ (padded.after.render .slash ++ ';' :: rest)) =
            .ok (some (padded.element.placed padded.element.leading.renewed),
              padded.after.render .slash ++ ';' :: rest) :=
        declaration?_complete complete canonical form
          (fun _ => ⟨padded.after, rest, sound.isGap, rfl⟩) enough
      rw [bind_of_ok readDeclaration]
      dsimp only
      rw [isBody, if_neg (by simp), terminated_complete sound.isGap, renewed]
  | some body =>
      obtain ⟨whole, renewed⟩ := statementBody_of_isSelfTerminated sound (by rw [form]; rfl) rest
      rw [whole] at enough ⊢
      have readDeclaration : declaration? statement padded.element.leading.renewed
          (padded.element.form.written ++ rest) =
            .ok (some (padded.element.placed padded.element.leading.renewed), rest) :=
        declaration?_complete complete canonical form (fun isNone => by cases isNone) enough
      rw [bind_of_ok readDeclaration]
      dsimp only
      rw [isBody, if_pos Option.isSome_some, run_pure, renewed]

/-- A statement is read back, when the ones inside it are. -/
theorem statementStep_complete
    (complete : IsCompleteStatement bound statement) :
    IsCompleteStatement (bound + 1) (statementStep statement) := by
  intro padded rest sound after short
  have short := Nat.le_of_lt_succ short
  rcases isStatement_cases sound.fits.1 with kind | ⟨isValue, noKeyword⟩
  · cases form : padded.element.form with
    | block statements closing =>
        exact statementStep_block complete sound (by rw [form]; rfl) short
    | conditional condition consequence alternative =>
        exact statementStep_conditional complete sound form after short
    | returns value => exact statementStep_returns sound form rest
    | declaration returnType name parameters body =>
        exact statementStep_declaration complete sound form short
    | empty => exact statementStep_empty sound form rest
    | _ => simp [form] at kind
  · exact statementStep_value sound isValue noKeyword rest

end Statement

/-- With enough nestings every written statement is read back. -/
theorem statementWithin_complete (nestings : Nat) :
    IsCompleteStatement nestings (statementWithin nestings) := by
  induction nestings with
  | zero =>
      intro padded rest _ _ short
      exact absurd short (Nat.not_lt_zero _)
  | succ nestings ih => exact statementStep_complete ih

/-- Every written statement is read back where it ends. -/
theorem statement_complete (bound : Nat) : IsCompleteStatement bound statement := by
  intro padded rest sound after _
  rw [statement, bind_get]
  exact statementWithin_complete _ sound after (Nat.lt_succ_self _)

/-! ### Whole sources -/

/-- The statements of a unit are read back up to the end of the text. -/
theorem unitStatements_complete
    {statements : List (RightPadded Tree)}
    {eof : Space}
    {fuel : Nat}
    (sound : SoundStatements statements)
    (isGap : eof.IsGapTo true)
    (enough : (writtenStatements statements ++ eof.render .slash).length < fuel) :
    unitStatements fuel (writtenStatements statements ++ eof.render .slash) =
      .ok ((statements.map (·.renewed Tree.renewed), eof.renewed), []) := by
  have scanned := scanGap_render isGap (show Text.isSolid [] = true from rfl) fun _ => rfl
  have readGap := gap_render isGap (show Text.isSolid [] = true from rfl) fun _ => rfl
  rw [List.append_nil] at scanned readGap
  have noWord : WordNext (eof.render .slash) [] := ⟨eof.render .slash, [], scanned, rfl⟩
  induction statements generalizing fuel with
  | nil =>
      obtain ⟨fuel, rfl⟩ : ∃ less, fuel = less + 1 := ⟨fuel - 1, by omega⟩
      rw [writtenStatements, List.flatMap_nil, List.nil_append, unitStatements, bind_get,
        bind_of_ok readGap, bind_get, if_pos rfl, run_pure]
      rfl
  | cons first others ih =>
      obtain ⟨fuel, rfl⟩ : ∃ less, fuel = less + 1 := ⟨fuel - 1, by omega⟩
      have nonempty := List.length_pos_iff.2 (writtenStatement_ne_nil sound.head)
      have whole : writtenStatements (first :: others) ++ eof.render .slash =
          writtenStatement first ++ (writtenStatements others ++ eof.render .slash) := by
        simp [writtenStatements]
      rw [whole] at enough ⊢
      rw [List.length_append] at enough
      have readFirst := statement_complete _ sound.head (afterStatement_first sound noWord)
        (Nat.lt_succ_self _)
      have readOthers := ih sound.tail (show _ < fuel by omega)
      have starts := (statement_starts sound.head (writtenStatements others ++ eof.render .slash)).1
      rw [unitStatements, bind_get, bind_of_ok (gap_statement sound.head _), bind_get,
        if_neg (dropStart?_of_opensStatement starts).2, bind_set, bind_of_ok readFirst,
        bind_of_ok readOthers]
      rfl

/-- A unit that looks as if it had been read is read back as a new one. -/
theorem unit_complete
    {path : Path}
    {statements : List (RightPadded Tree)}
    {eof : Space}
    {head : Head}
    (canonical : (Tree.node head (.compilationUnit .java ⟨path, none, none⟩ statements eof)).IsCanonical) :
    Parser.unit path (writtenStatements statements ++ eof.render .slash) =
      .ok (.build (.compilationUnit .java ⟨path, none, none⟩
        (statements.map (·.renewed Tree.renewed)) eof.renewed), []) := by
  obtain ⟨fits, separates, gaps, eofIsGap, -, -⟩ := canonical.root
  have sound : SoundStatements statements := by
    refine ⟨fun padded member => ⟨fits.2.1 padded member, separates padded member, ?_, ?_⟩, fits.2.2⟩
    · exact gaps padded.after (List.mem_map.2 ⟨padded, member, rfl⟩)
    · exact canonical.part (List.mem_map.2 ⟨padded, member, rfl⟩)
  have readStatements := unitStatements_complete sound (eofIsGap eof rfl) (Nat.lt_succ_self _)
  rw [Parser.unit, bind_get, bind_of_ok readStatements]
  rfl

end Java
end Lossless
