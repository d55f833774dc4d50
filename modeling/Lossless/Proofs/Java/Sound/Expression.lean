import Lossless.Proofs.Java.Sound.List

/-!
# What is read as a chain or an expression

Chains first, which are the operands, then the operations and assignments over them.
-/

namespace Lossless
namespace Java

open Lossless.Parser
open Java.Parser

variable {text rest : Text} {leading : Space} {tree : Tree}
variable {expression : Space -> Parser Tree}

/-!
## What is read as a chain

Primary expressions, and the field accesses and calls chained onto them. The loop over the chain carries
along what has been read so far.
-/

/-! ### Primary expressions -/

theorem parentheses_sound
    (sound : IsSound Form.isValue expression) :
    IsSound Form.isParentheses (parentheses expression) := by
  intro leading text tree rest paired read
  unfold parentheses at read
  simp only [bind_eq_ok, pure_eq_ok] at read
  obtain ⟨_, body, opened, innerLeading, afterLeading, readLeading, inner, afterInner, readInner,
    after, left, readAfter, _, _, closed, rfl, rfl⟩ := read
  obtain rfl := expect_eq_ok.1 opened
  obtain rfl := expect_eq_ok.1 closed
  obtain ⟨whole, -, kind, part, isGap⟩ := element_sound sound
    (Text.hasPairedReturns_of_append paired) readLeading readInner readAfter (by simp)
  refine ⟨.spaced ?_ ?_, rfl⟩
  · simp [whole]
  · apply Tree.isCanonical_of_parts
    case fits => exact ⟨kind, rfl⟩
    case separates => trivial
    case gaps => simpa [Form.gaps] using isGap
    case eof => simp [Form.eof?]
    case parts => simpa [Form.children] using part

/-- The arguments of a call, as they are read. -/
theorem arguments?_sound
    (sound : IsSound Form.isValue expression)
    {arguments : Option (Container Tree)}
    (paired : text.hasPairedReturns = true)
    (read : arguments? expression text = .ok (arguments, rest)) :
    (arguments = none ∧ text = rest) ∨
      ∃ list, arguments = some list ∧ text = writtenContainer (['('], [')']) list ++ rest ∧
        list.before.IsGap ∧ SoundContainer Form.isValue list := by
  unfold arguments? at read
  simp only [bind_eq_ok] at read
  obtain ⟨found, _, looked, read⟩ := read
  obtain ⟨rfl, -⟩ := isNextAfterGap_eq_ok.1 looked
  cases found with
  | false =>
      rw [if_neg Bool.false_ne_true, pure_eq_ok] at read
      exact .inl ⟨read.1.symm, read.2⟩
  | true =>
      right
      simp only [if_true, bind_eq_ok, pure_eq_ok] at read
      obtain ⟨before, left, readBefore, list, _, readList, rfl, rfl⟩ := read
      obtain ⟨rfl, -, -⟩ := gap_sound paired readBefore
      obtain ⟨rfl, rfl, listSound⟩ := container_sound sound rfl (by simp)
        (Text.hasPairedReturns_of_append paired) readList
      refine ⟨list, rfl, by simp [writtenContainer], ?_, listSound⟩
      exact isGap_of_gap paired readBefore (by simp)

theorem Form.isChain_of_isParentheses
    {form : Form Tree}
    (isParentheses : form.isParentheses = true) :
    form.isChain = true := by
  cases form <;> first | rfl | cases isParentheses

/-- A tree of a chain is read, and when it is a number the text does not go on with it. -/
structure ReadsChain
    (leading : Space)
    (text : Text)
    (tree : Tree)
    (rest : Text) : Prop where
  reads : ReadsAs leading text tree rest
  isChain : tree.form.isChain = true
  ends : tree.form.isNumeral = true -> rest.startsIn isNumberPart = false

namespace ReadsChain

/-- A node of a chain that is no number. -/
theorem ofForm
    {form : Form Tree}
    (written : text = form.written ++ rest)
    (canonical : (Tree.spaced leading form).IsCanonical)
    (isChain : form.isChain = true)
    (noNumeral : form.isNumeral = false) :
    ReadsChain leading text (.spaced leading form) rest where
  reads := .spaced written canonical
  isChain := isChain
  ends := by
    intro isNumeral
    rw [Tree.form_spaced, noNumeral] at isNumeral
    cases isNumeral

/-- A parenthesised expression is a chain. -/
theorem ofParentheses
    (reads : ReadsAs leading text tree rest)
    (isParentheses : tree.form.isParentheses = true) :
    ReadsChain leading text tree rest := by
  refine ⟨reads, Form.isChain_of_isParentheses isParentheses, ?_⟩
  revert isParentheses
  cases tree.form <;> simp [Form.isParentheses, Form.isNumeral]

end ReadsChain

theorem isCanonical_identifier
    {name : Text}
    (isName : isName name = true) :
    (Tree.spaced leading (.identifier name none)).IsCanonical := by
  apply Tree.isCanonical_of_parts
  case fits => exact ⟨isName, rfl⟩
  case separates => trivial
  case gaps => simp [Form.gaps]
  case eof => simp [Form.eof?]
  case parts => simp [Form.children]

theorem isCanonical_literal
    {source : Text}
    (isLiteral : (isLiteralWord source || isNumber source || isQuoted source) = true) :
    (Tree.spaced leading (.literal source none)).IsCanonical := by
  apply Tree.isCanonical_of_parts
  case fits => exact ⟨isLiteral, rfl⟩
  case separates => trivial
  case gaps => simp [Form.gaps]
  case eof => simp [Form.eof?]
  case parts => simp [Form.children]

theorem isNumber_of_isLiteralWord
    {name : Text}
    (isLiteral : isLiteralWord name = true) :
    isNumber name = false := by
  rcases isLiteralWord_iff.1 isLiteral with rfl | rfl | rfl <;> decide

theorem isNumber_of_isQuoted
    {source : Text}
    (quoted : isQuoted source = true) :
    isNumber source = false := by
  cases source with
  | nil => cases quoted
  | cons first body =>
      simp only [isQuoted, Bool.and_eq_true, Bool.or_eq_true, decide_eq_true_eq] at quoted
      rcases quoted.1 with rfl | rfl <;> rfl

/-- A number starts with digits of its own, and not with those behind it. -/
theorem isNumberStart_of_append
    {first : Char}
    {body : Text}
    (starts : isNumberStart (first :: (body ++ rest)) = true)
    (outside : rest.startsIn isNumberPart = false) :
    isNumberStart (first :: body) = true := by
  by_cases isMinus : first = '-'
  · subst isMinus
    cases body with
    | cons second more => exact starts
    | nil =>
        cases rest with
        | nil => exact starts
        | cons second more =>
            have isDigit : second.isDigit = true := starts
            have inside : isNumberPart second = true := by
              simp [isNumberPart, Char.isAlphanum, isDigit]
            rw [Text.startsIn, inside] at outside
            cases outside
  · have byFirst (tail : Text) : isNumberStart (first :: tail) = first.isDigit := by
      unfold isNumberStart
      split <;> simp_all
    rw [byFirst] at starts ⊢
    exact starts

/-- A call without receiver, as it is read. -/
theorem isCanonical_plainCall
    {name : Text}
    {arguments : Container Tree}
    (isName : isName name = true)
    (noLiteral : isLiteralWord name = false)
    (isGap : arguments.before.IsGap)
    (sound : SoundContainer Form.isValue arguments) :
    (Tree.spaced leading (.call none (.identifier name) arguments none)).IsCanonical := by
  apply Tree.isCanonical_of_parts
  case fits => exact ⟨noLiteral, rfl, sound.fits, rfl⟩
  case separates => exact ⟨rfl, sound.closes⟩
  case gaps =>
    simp only [Tree.form_spaced, Form.gaps, Option.map_none, Option.toList_none,
      List.nil_append]
    exact List.forall_mem_cons.2 ⟨isGap, sound.gaps⟩
  case eof => simp [Form.eof?]
  case parts =>
    refine List.forall_mem_cons.2 ⟨⟨Space.isGapTo_empty false, rfl, ?_⟩, sound.parts⟩
    exact isCanonical_identifier isName

theorem word_sound
    (sound : IsSound Form.isValue expression)
    (paired : text.hasPairedReturns = true)
    (read : word expression leading text = .ok (tree, rest)) :
    ReadsChain leading text tree rest := by
  obtain ⟨name, middle, rfl, isName, outside, ⟨isWord, rfl, rfl⟩ | ⟨noLiteral, arguments, readArguments, rfl⟩⟩ :=
    word_cases read
  · refine .ofForm (by simp) (isCanonical_literal (by simp [isWord])) rfl ?_
    exact isNumber_of_isLiteralWord isWord
  · rcases arguments?_sound sound (Text.hasPairedReturns_of_append paired) readArguments with
      ⟨rfl, rfl⟩ | ⟨list, rfl, rfl, isGap, listSound⟩
    · exact .ofForm (by simp) (isCanonical_identifier isName) (by simp [Form.isChain,
        Form.isOperand, noLiteral, Form.tightness]) rfl
    · refine .ofForm ?_ (isCanonical_plainCall isName noLiteral isGap listSound) rfl rfl
      simp [writtenReceiver, Tree.written_eq, Tree.identifier]

/-- A collection, as it is read. -/
theorem isCanonical_list
    {elements : Container Tree}
    (noSpace : elements.before = .empty)
    (sound : SoundContainer Form.isValue elements) :
    (Tree.spaced leading (.collection .list elements none)).IsCanonical := by
  apply Tree.isCanonical_of_parts
  case fits => exact ⟨rfl, sound.fits, rfl⟩
  case separates => exact ⟨by rw [noSpace]; rfl, sound.closes⟩
  case gaps =>
    simp only [Tree.form_spaced, Form.gaps]
    exact List.forall_mem_cons.2 ⟨by rw [noSpace]; exact Space.isGapTo_empty false, sound.gaps⟩
  case eof => simp [Form.eof?]
  case parts => simpa [Form.children] using sound.parts

theorem primary_sound
    (sound : IsSound Form.isValue expression)
    (paired : text.hasPairedReturns = true)
    (read : primary expression leading text = .ok (tree, rest)) :
    ReadsChain leading text tree rest := by
  unfold primary at read
  simp only [bind_eq_ok, get_eq_ok] at read
  obtain ⟨_, _, ⟨rfl, rfl⟩, read⟩ := read
  cases text with
  | nil => simp at read
  | cons first more =>
      simp only at read
      split at read
      · obtain ⟨reads, isParentheses⟩ := parentheses_sound sound paired read
        exact .ofParentheses reads isParentheses
      · split at read
        · simp only [bind_eq_ok, pure_eq_ok] at read
          obtain ⟨elements, _, readElements, rfl, rfl⟩ := read
          obtain ⟨whole, noSpace, listSound⟩ :=
            container_sound sound rfl (by simp) paired readElements
          refine .ofForm ?_ (isCanonical_list noSpace listSound) rfl rfl
          simp [whole, writtenContainer, noSpace, CollectionKind.delimiters]
        · split at read
          · next isQuote =>
              cases found : splitQuoted? first false more with
              | none => simp [found] at read
              | some parts =>
                  obtain ⟨body, after⟩ := parts
                  simp only [found, bind_eq_ok, set_eq_ok, pure_eq_ok] at read
                  obtain ⟨_, _, rfl, rfl, rfl⟩ := read
                  obtain ⟨rfl, again⟩ := splitQuoted?_eq_some found
                  have isQuoted : isQuoted (first :: body) = true := by
                    have whole := again []
                    rw [List.append_nil] at whole
                    simp only [Java.isQuoted, isQuote, whole, Bool.true_and, decide_true]
                  exact .ofForm (by simp) (isCanonical_literal (by simp [isQuoted])) rfl
                    (isNumber_of_isQuoted isQuoted)
          · split at read
            · next isNumberStart =>
                simp only [bind_eq_ok, set_eq_ok, pure_eq_ok, takeWhile_eq_ok] at read
                obtain ⟨_, _, rfl, body, _, longest, rfl, rfl⟩ := read
                obtain ⟨rfl, inside, outside⟩ := Text.takeWhile_eq_iff.1 longest
                have isNumber : isNumber (first :: body) = true := by
                  rw [Java.isNumber, isNumberStart_of_append isNumberStart outside, inside]
                  rfl
                exact ⟨.spaced (by simp) (isCanonical_literal (by simp [isNumber])), rfl,
                  fun _ => outside⟩
            · split at read
              · exact word_sound sound paired read
              · simp at read

/-! ### Chains -/

/-- The name behind a dot, as it is read. -/
theorem isPart_identifier
    {name : Text}
    (isName : isName name = true)
    (isGap : leading.IsGap) :
    (Tree.spaced leading (.identifier name none)).IsPart :=
  ⟨isGap, rfl, isCanonical_identifier isName⟩

/-- A dot that follows a number is not read as part of it. -/
theorem ReadsChain.separates
    {start left : Text}
    {before : Space}
    (reads : ReadsChain leading start tree (before.render .slash ++ '.' :: left))
    (isNumeral : tree.form.isNumeral = true) :
    before.isEmpty = false := by
  refine Bool.eq_false_iff.2 fun isEmpty => ?_
  have outside := reads.ends isNumeral
  have dot : isNumberPart '.' = true := by decide
  rw [(Space.render_eq_nil_iff before).2 isEmpty, List.nil_append, Text.startsIn, dot] at outside
  cases outside

/-- A field access, as it is read. -/
theorem ReadsChain.fieldAccess
    {start left name : Text}
    {before nameLeading : Space}
    (reads : ReadsChain leading start tree
      (before.render .slash ++ '.' :: (nameLeading.render .slash ++ (name ++ left))))
    (beforeIsGap : before.IsGap)
    (nameIsGap : nameLeading.IsGap)
    (isName : isName name = true) :
    ReadsChain leading start
      (tree.leadingFrom fun target =>
        .fieldAccess target ⟨before, .spaced nameLeading (.identifier name none), .empty⟩ none)
      left := by
  have treePart := Tree.isPart_withLeading_empty reads.reads.unmarked reads.reads.canonical
  rw [Tree.leadingFrom, reads.reads.leading]
  refine .ofForm ?_ ?_ rfl rfl
  · rw [reads.reads.written]
    simp [Tree.written_eq (.spaced nameLeading _)]
  · apply Tree.isCanonical_of_parts
    case fits => exact ⟨by simpa using reads.isChain, rfl, rfl, rfl⟩
    case separates =>
      refine ⟨by simp; rfl, fun isNumeral => ?_⟩
      exact reads.separates (by simpa using isNumeral)
    case gaps => simpa [Form.gaps] using beforeIsGap
    case eof => simp [Form.eof?]
    case parts =>
      simp only [Tree.form_spaced, Form.children, List.forall_mem_cons]
      exact ⟨treePart, isPart_identifier isName nameIsGap, by simp⟩

/-- A call of a receiver, as it is read. -/
theorem ReadsChain.call
    {start left name : Text}
    {before nameLeading : Space}
    {arguments : Container Tree}
    (reads : ReadsChain leading start tree
      (before.render .slash ++ '.' :: (nameLeading.render .slash ++
        (name ++ (writtenContainer (['('], [')']) arguments ++ left)))))
    (beforeIsGap : before.IsGap)
    (nameIsGap : nameLeading.IsGap)
    (isName : isName name = true)
    (argumentsIsGap : arguments.before.IsGap)
    (argumentsSound : SoundContainer Form.isValue arguments) :
    ReadsChain leading start
      (tree.leadingFrom fun receiver =>
        .call (some ⟨receiver, before, .empty⟩) (.spaced nameLeading (.identifier name none))
          arguments none)
      left := by
  have treePart := Tree.isPart_withLeading_empty reads.reads.unmarked reads.reads.canonical
  rw [Tree.leadingFrom, reads.reads.leading]
  refine .ofForm ?_ ?_ rfl rfl
  · rw [reads.reads.written]
    simp [Tree.written_eq (.spaced nameLeading _), writtenReceiver]
  · apply Tree.isCanonical_of_parts
    case fits => exact ⟨⟨by simpa using reads.isChain, rfl⟩, rfl, argumentsSound.fits, rfl⟩
    case separates =>
      refine ⟨by simp; rfl, argumentsSound.closes, fun isNumeral => ?_⟩
      exact reads.separates (by simpa using isNumeral)
    case gaps =>
      simp only [Tree.form_spaced, Form.gaps, Option.map_some, Option.toList_some,
        List.singleton_append, List.forall_mem_cons]
      exact ⟨beforeIsGap, argumentsIsGap, argumentsSound.gaps⟩
    case eof => simp [Form.eof?]
    case parts =>
      simp only [Tree.form_spaced, Form.children, Option.map_some, Option.toList_some,
        List.singleton_append, List.forall_mem_cons]
      exact ⟨treePart, isPart_identifier isName nameIsGap, argumentsSound.parts⟩

theorem postfixes_sound
    (sound : IsSound Form.isValue expression)
    {start : Text}
    {bound : Nat}
    {result : Tree}
    (paired : start.hasPairedReturns = true)
    (reads : ReadsChain leading start tree text)
    (read : postfixes expression bound tree text = .ok (result, rest)) :
    ReadsChain leading start result rest := by
  induction bound generalizing tree text with
  | zero => simp [postfixes] at read
  | succ bound ih =>
      unfold postfixes at read
      simp only [bind_eq_ok, get_eq_ok] at read
      obtain ⟨_, _, ⟨rfl, rfl⟩, before, atDot, readBefore, isDot, _, accepted, read⟩ := read
      have textPaired := reads.reads.paired paired
      rcases accept_eq_ok.1 accepted with ⟨rfl, rfl⟩ | ⟨rfl, -, rfl⟩
      · simp only [if_true, bind_eq_ok] at read
        obtain ⟨nameLeading, atName, readLeading, name, afterName, readName, arguments, left,
          readArguments, read⟩ := read
        obtain ⟨rfl, -, -⟩ := gap_sound textPaired readBefore
        have behindDot := Text.hasPairedReturns_of_append (Text.hasPairedReturns_of_append textPaired)
        obtain ⟨rfl, -, -⟩ := gap_sound behindDot readLeading
        obtain ⟨rfl, isName, -⟩ := identifier_eq_ok.1 readName
        have afterPaired := Text.hasPairedReturns_of_append (Text.hasPairedReturns_of_append behindDot)
        have beforeIsGap := isGap_of_gap textPaired readBefore (by simp)
        have nameIsGap := isGap_of_gap behindDot readLeading (by simp [ne_nil_of_isName isName])
        rcases arguments?_sound sound afterPaired readArguments with
          ⟨rfl, rfl⟩ | ⟨list, rfl, rfl, isGap, listSound⟩
        · exact ih (reads.fieldAccess beforeIsGap nameIsGap isName) read
        · exact ih (reads.call beforeIsGap nameIsGap isName isGap listSound) read
      · simp only [Bool.false_eq_true, if_false, bind_eq_ok, set_eq_ok, pure_eq_ok] at read
        obtain ⟨_, _, rfl, rfl, rfl⟩ := read
        exact reads

theorem chained_sound
    (sound : IsSound Form.isValue expression) :
    IsSound Form.isChain (chained expression) := by
  intro leading text tree rest paired read
  unfold chained at read
  simp only [bind_eq_ok, get_eq_ok] at read
  obtain ⟨first, middle, readFirst, _, _, ⟨rfl, rfl⟩, read⟩ := read
  have reads := postfixes_sound sound paired (primary_sound sound paired readFirst) read
  exact ⟨reads.reads, reads.isChain⟩

/-!
## What is read as an expression

Operations and assignments. The loop over operators carries along what has been read so far, and that the
next operator binds no tighter than it. Then every text with paired returns that is read as an expression is
read as a canonical tree.
-/

/-! ### Operations -/

theorem operatorNext?_eq_some
    {operator : Operator}
    (found : operatorNext? text = some (operator, rest)) :
    text = operator.symbol .java ++ rest := by
  obtain ⟨other, -, present⟩ := List.exists_of_findSome?_eq_some found
  obtain ⟨left, dropped, equal⟩ := Option.map_eq_some_iff.1 present
  obtain ⟨rfl, rfl⟩ := Prod.mk.inj equal
  exact Text.eq_append_of_dropStart? dropped

theorem symbol_ne_nil (operator : Operator) : operator.symbol .java ≠ [] := by
  cases operator <;> simp [Operator.symbol]

/-- Every expression is written with some character. -/
theorem written_ne_nil
    {form : Form Tree}
    (fits : form.Fits)
    (isValue : form.isValue = true) :
    form.written ≠ [] := by
  cases form with
  | identifier name typeTag => simpa using ne_nil_of_isName fits.1
  | literal source typeTag =>
      rintro isEmpty
      rw [Form.written_literal] at isEmpty
      subst isEmpty
      simp [Form.Fits, isLiteralWord, isNumber, isQuoted] at fits
  | binary left operator right typeTag => simp [symbol_ne_nil]
  | collection kind elements typeTag =>
      obtain ⟨rfl, -⟩ := fits
      simp [writtenContainer, CollectionKind.delimiters]
  | assignment target value typeTag => simp
  | fieldAccess target name typeTag => simp
  | call receiver name arguments typeTag => simp [writtenContainer]
  | parentheses inner => simp
  | _ => cases isValue

theorem precedence_lt_operatorLevels (operator : Operator) :
    operator.precedence < operatorLevels := by
  cases operator <;> decide

/-- An operand of a precedence is read up to where only looser operators go on. -/
structure ReadsOperand
    (precedence : Nat)
    (leading : Space)
    (text : Text)
    (tree : Tree)
    (rest : Text) : Prop where
  reads : ReadsAs leading text tree rest
  isOperand : tree.form.isOperand = true
  tight : precedence ≤ tree.form.tightness
  next : NextBelow precedence rest

/-- The text behind a division sign does not open a comment. -/
theorem startsComment_of_division
    {right : Text}
    {rightLeading : Space}
    (solid : Text.isSolid ('/' :: (rightLeading.render .slash ++ right)) = true) :
    rightLeading.startsComment = false := by
  obtain ⟨stamp, whitespace, comments⟩ := rightLeading
  cases whitespace with
  | cons first more => rfl
  | nil =>
      cases comments with
      | nil => rfl
      | cons comment others =>
          obtain ⟨isBlock, body, suffix, markers⟩ := comment
          cases isBlock <;>
            simp [Space.render, Comment.render, Text.isSolid, Text.startsComment] at solid

/-- An operation, as it is read. -/
theorem ReadsAs.binary
    {start afterRight : Text}
    {before rightLeading : Space}
    {operator : Operator}
    {left right : Tree}
    (reads : ReadsAs leading start left
      (before.render .slash ++ (operator.symbol .java ++ (rightLeading.render .slash ++ text))))
    (isOperand : left.form.isOperand = true)
    (tight : operator.precedence ≤ left.form.tightness)
    (beforeIsGap : before.IsGap)
    (solid : Text.isSolid (operator.symbol .java ++ (rightLeading.render .slash ++ text)) = true)
    (rightIsGap : rightLeading.IsGap)
    (readsRight : ReadsOperand (operator.precedence + 1) rightLeading text right afterRight) :
    ReadsAs leading start
      (left.leadingFrom fun left => .binary left ⟨before, operator, .empty⟩ right none)
      afterRight := by
  have leftPart := Tree.isPart_withLeading_empty reads.unmarked reads.canonical
  rw [Tree.leadingFrom, reads.leading]
  refine .spaced ?_ ?_
  · rw [reads.written, readsRight.reads.written_append]
    simp
  · apply Tree.isCanonical_of_parts
    case fits =>
      exact ⟨⟨by simpa using isOperand, by simpa using tight⟩,
        ⟨readsRight.isOperand, readsRight.tight⟩, rfl, rfl⟩
    case separates =>
      refine ⟨by simp; rfl, fun isDivision => ?_⟩
      simp only at isDivision
      subst isDivision
      rw [readsRight.reads.leading]
      exact startsComment_of_division solid
    case gaps => simpa [Form.gaps] using beforeIsGap
    case eof => simp [Form.eof?]
    case parts =>
      simp only [Tree.form_spaced, Form.children, List.forall_mem_cons]
      exact ⟨leftPart, readsRight.reads.isPart rightIsGap, by simp⟩

theorem operations_sound
    {operand : Nat -> Space -> Parser Tree}
    {precedence bound : Nat}
    {start : Text}
    {left result : Tree}
    (sound : forall {operator : Operator}, precedence ≤ operator.precedence ->
      forall {leading text tree rest}, text.hasPairedReturns = true ->
        operand (operator.precedence + 1) leading text = .ok (tree, rest) ->
          ReadsOperand (operator.precedence + 1) leading text tree rest)
    (paired : start.hasPairedReturns = true)
    (reads : ReadsAs leading start left text)
    (isOperand : left.form.isOperand = true)
    (tight : precedence ≤ left.form.tightness)
    (next : NextBelow (left.form.tightness + 1) text)
    (read : operations operand precedence bound left text = .ok (result, rest)) :
    ReadsOperand precedence leading start result rest := by
  induction bound generalizing left text with
  | zero => simp [operations] at read
  | succ bound ih =>
      obtain ⟨rfl, rfl, below⟩ | ⟨before, atOperator, operator, tail, rightLeading, atRight, right, afterRight,
        readBefore, found, tighter, readLeading, readRight, readMore⟩ := operations_cases read
      · exact ⟨reads, isOperand, tight, below⟩
      · have textPaired := reads.paired paired
        have leftTight := next.precedence_lt readBefore found
        obtain ⟨rfl, -, solid⟩ := gap_sound textPaired readBefore
        obtain rfl := operatorNext?_eq_some found
        have tailPaired := Text.hasPairedReturns_of_append
          (Text.hasPairedReturns_of_append textPaired)
        obtain ⟨rfl, -, -⟩ := gap_sound tailPaired readLeading
        have readsRight := sound tighter (Text.hasPairedReturns_of_append tailPaired) readRight
        have rightWritten := written_ne_nil readsRight.reads.canonical.root.fits
          (Form.isValue_of_isOperand readsRight.isOperand)
        have atRightNonempty : atRight ≠ [] := by
          rw [readsRight.reads.written]
          simp [rightWritten]
        have beforeIsGap := isGap_of_gap textPaired readBefore (by simp [symbol_ne_nil])
        have rightIsGap := isGap_of_gap tailPaired readLeading atRightNonempty
        refine ih (reads.binary isOperand (by omega) beforeIsGap solid rightIsGap readsRight)
          rfl tighter ?_ readMore
        exact readsRight.next

theorem nextBelow_of_operatorLevels
    {precedence : Nat}
    (loosest : operatorLevels ≤ precedence)
    (text : Text) :
    NextBelow precedence text := by
  intro run after operator left _ _
  have below := precedence_lt_operatorLevels operator
  omega

theorem binary_sound
    (sound : IsSound Form.isValue expression)
    {levels precedence : Nat}
    (enough : operatorLevels ≤ levels + precedence)
    (isPrecedence : precedence ≤ operatorLevels)
    (paired : text.hasPairedReturns = true)
    (read : binary expression levels precedence leading text = .ok (tree, rest)) :
    ReadsOperand precedence leading text tree rest := by
  induction levels generalizing precedence leading text tree rest with
  | zero =>
      obtain ⟨reads, isChain⟩ := chained_sound sound paired read
      rw [Form.isChain, Bool.and_eq_true, decide_eq_true_eq] at isChain
      exact ⟨reads, isChain.1, by omega, nextBelow_of_operatorLevels (by omega) rest⟩
  | succ levels ih =>
      unfold binary at read
      simp only [bind_eq_ok, get_eq_ok] at read
      obtain ⟨first, middle, readFirst, _, _, ⟨rfl, rfl⟩, read⟩ := read
      obtain ⟨reads, isChain⟩ := chained_sound sound paired readFirst
      rw [Form.isChain, Bool.and_eq_true, decide_eq_true_eq] at isChain
      refine operations_sound ?_ paired reads isChain.1 (by omega)
        (nextBelow_of_operatorLevels (by omega) middle) read
      intro operator tighter leading text tree rest paired readRight
      have below := precedence_lt_operatorLevels operator
      exact ih (by omega) (by omega) paired readRight

/-! ### Assignments -/

/-- An assignment, as it is read. -/
theorem ReadsAs.assignment
    {start afterValue : Text}
    {before valueLeading : Space}
    {target value : Tree}
    (reads : ReadsAs leading start target
      (before.render .slash ++ '=' :: (valueLeading.render .slash ++ text)))
    (isOperand : target.form.isOperand = true)
    (beforeIsGap : before.IsGap)
    (valueIsGap : valueLeading.IsGap)
    (readsValue : ReadsAs valueLeading text value afterValue)
    (isValue : value.form.isValue = true) :
    ReadsAs leading start
      (target.leadingFrom fun target => .assignment target ⟨before, value, .empty⟩ none)
      afterValue := by
  have targetPart := Tree.isPart_withLeading_empty reads.unmarked reads.canonical
  rw [Tree.leadingFrom, reads.leading]
  refine .spaced ?_ ?_
  · rw [reads.written, readsValue.written_append]
    simp
  · apply Tree.isCanonical_of_parts
    case fits => exact ⟨by simpa using isOperand, isValue, rfl, rfl⟩
    case separates => exact (by simp; rfl : (target.withLeading .empty).leading.isEmpty = true)
    case gaps => simpa [Form.gaps] using beforeIsGap
    case eof => simp [Form.eof?]
    case parts =>
      simp only [Tree.form_spaced, Form.children, List.forall_mem_cons]
      exact ⟨targetPart, readsValue.isPart valueIsGap, by simp⟩

theorem expressionStep_sound
    (sound : IsSound Form.isValue expression) :
    IsSound Form.isValue (expressionStep expression) := by
  intro leading text tree rest paired read
  unfold expressionStep at read
  simp only [bind_eq_ok, get_eq_ok] at read
  obtain ⟨target, middle, readTarget, _, _, ⟨rfl, rfl⟩, before, atSign, readBefore, isEquality, _,
    looked, isSign, _, accepted, read⟩ := read
  have readsTarget := binary_sound sound (by decide) (by decide) paired readTarget
  have middlePaired := readsTarget.reads.paired paired
  obtain ⟨-, rfl⟩ := isNext_eq_ok.1 looked
  split at read
  · next assigns =>
      simp only [bind_eq_ok, pure_eq_ok] at read
      obtain ⟨valueLeading, atValue, readLeading, value, _, readValue, rfl, rfl⟩ := read
      rcases accept_eq_ok.1 accepted with ⟨rfl, rfl⟩ | ⟨rfl, -, rfl⟩
      · obtain ⟨rfl, -, -⟩ := gap_sound middlePaired readBefore
        have behindSign := Text.hasPairedReturns_of_append
          (Text.hasPairedReturns_of_append middlePaired)
        obtain ⟨rfl, -, -⟩ := gap_sound behindSign readLeading
        obtain ⟨readsValue, isValue⟩ :=
          sound (Text.hasPairedReturns_of_append behindSign) readValue
        have valueWritten := written_ne_nil readsValue.canonical.root.fits isValue
        have atValueNonempty : atValue ≠ [] := by
          rw [readsValue.written]
          simp [valueWritten]
        have beforeIsGap := isGap_of_gap middlePaired readBefore (by simp)
        have valueIsGap := isGap_of_gap behindSign readLeading atValueNonempty
        exact ⟨readsTarget.reads.assignment readsTarget.isOperand beforeIsGap valueIsGap
          readsValue isValue, rfl⟩
      · simp at assigns
  · next keeps =>
      simp only [bind_eq_ok, set_eq_ok, pure_eq_ok] at read
      obtain ⟨_, _, rfl, rfl, rfl⟩ := read
      exact ⟨readsTarget.reads, Form.isValue_of_isOperand readsTarget.isOperand⟩

/-- Expressions are read as canonical trees, whatever the number of nestings. -/
theorem expressionWithin_sound (nestings : Nat) :
    IsSound Form.isValue (expressionWithin nestings) := by
  induction nestings with
  | zero =>
      intro leading text tree rest _ read
      simp [expressionWithin] at read
  | succ nestings ih => exact expressionStep_sound ih

theorem expression_sound : IsSound Form.isValue Parser.expression := by
  intro leading text tree rest paired read
  unfold Parser.expression at read
  simp only [bind_eq_ok, get_eq_ok] at read
  obtain ⟨_, _, ⟨rfl, rfl⟩, read⟩ := read
  exact expressionWithin_sound _ paired read

end Java
end Lossless
