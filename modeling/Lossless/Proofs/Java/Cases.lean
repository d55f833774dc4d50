import Lossless.Proofs.Java.Lexeme

/-!
# One step of the grammar

What a parser has done when it succeeds, for the parsers that decide between several ways to go on. Each lemma lists
the ways, with what the text must look like for the parser to take one of them.
-/

namespace Lossless
namespace Java

open Lossless.Parser
open Java.Parser

variable {text rest : Text} {leading : Space} {tree : Tree}

/-! ## Words -/

/-- A name that is no literal is not one of the three keywords. -/
theorem isLiteralWord_iff
    {name : Text} :
    isLiteralWord name = true ↔
      name = "true".toList ∨ name = "false".toList ∨ name = "null".toList := by
  simp only [isLiteralWord, Bool.or_eq_true, decide_eq_true_eq, or_assoc]

/-- A word is a literal, or a name that can be called. -/
theorem word_cases
    {expression : Space -> Parser Tree}
    (read : word expression leading text = .ok (tree, rest)) :
    ∃ name middle, text = name ++ middle ∧ isName name = true ∧ middle.startsIn Text.isIdentifierPart = false ∧
      ((isLiteralWord name = true ∧ tree = .spaced leading (.literal name none) ∧ rest = middle) ∨
        isLiteralWord name = false ∧ ∃ arguments, arguments? expression middle = .ok (arguments, rest) ∧
          tree = .spaced leading (match arguments with
            | some list => .call none (.identifier name) list none
            | none => .identifier name none)) := by
  unfold word at read
  simp only [bind_eq_ok] at read
  obtain ⟨isTrue, _, lookedTrue, isFalse, _, lookedFalse, isNull, _, lookedNull, name, afterName,
    readName, read⟩ := read
  obtain ⟨trueIff, rfl⟩ := (isKeywordNext_eq_ok (by decide)).1 lookedTrue
  obtain ⟨falseIff, rfl⟩ := (isKeywordNext_eq_ok (by decide)).1 lookedFalse
  obtain ⟨nullIff, rfl⟩ := (isKeywordNext_eq_ok (by decide)).1 lookedNull
  obtain ⟨rfl, isName, outside⟩ := identifier_eq_ok.1 readName
  have longest := Text.takeWhile_run (isName_iff.1 isName).2 outside
  rw [longest] at trueIff falseIff nullIff
  have literalIff : isLiteralWord name = true ↔ (isTrue || isFalse || isNull) = true := by
    rw [isLiteralWord_iff, trueIff, falseIff, nullIff, Bool.or_eq_true, Bool.or_eq_true, or_assoc]
  refine ⟨name, afterName, rfl, isName, outside, ?_⟩
  cases isLiteral : (isTrue || isFalse || isNull) with
  | true =>
      rw [if_pos isLiteral, pure_eq_ok] at read
      obtain ⟨rfl, rfl⟩ := read
      exact .inl ⟨literalIff.2 isLiteral, rfl, rfl⟩
  | false =>
      have noLiteral : isLiteralWord name = false := by
        refine Bool.eq_false_iff.2 fun isWord => ?_
        rw [literalIff.1 isWord] at isLiteral
        cases isLiteral
      rw [if_neg (by simp [isLiteral])] at read
      simp only [bind_eq_ok] at read
      obtain ⟨arguments, afterArguments, readArguments, read⟩ := read
      refine .inr ⟨noLiteral, arguments, ?_⟩
      cases arguments <;> obtain ⟨rfl, rfl⟩ := pure_eq_ok.1 read <;> exact ⟨readArguments, rfl⟩

/-! ## Operations -/

/-- An operator behind the next gap binds less tightly. -/
def NextBelow
    (precedence : Nat)
    (text : Text) : Prop :=
  forall run after operator left, scanGap text = .ok (run, after) ->
    operatorNext? after = some (operator, left) -> operator.precedence < precedence

theorem NextBelow.precedence_lt
    {precedence : Nat}
    {before : Space}
    {after : Text}
    {operator : Operator}
    (next : NextBelow precedence text)
    (readBefore : gap text = .ok (before, after))
    (found : operatorNext? after = some (operator, rest)) :
    operator.precedence < precedence := by
  obtain ⟨run, scanned, -⟩ := gap_eq_ok.1 readBefore
  exact next run after operator rest scanned found

theorem nextBelow_of_gap
    {precedence : Nat}
    {before : Space}
    {after : Text}
    (readBefore : gap text = .ok (before, after))
    (below : forall operator left, operatorNext? after = some (operator, left) -> operator.precedence < precedence) :
    NextBelow precedence text := by
  obtain ⟨run, scanned, -⟩ := gap_eq_ok.1 readBefore
  intro otherRun other operator left scannedAgain found
  rw [scanned] at scannedAgain
  obtain ⟨-, rfl⟩ : run = otherRun ∧ after = other := by simpa using scannedAgain
  exact below operator left found

/-- A turn of the loop stops before a looser operator, or goes on with the operation of a tighter one. -/
theorem operations_cases
    {operand : Nat -> Space -> Parser Tree}
    {precedence bound : Nat}
    {left result : Tree}
    (read : operations operand precedence (bound + 1) left text = .ok (result, rest)) :
    (result = left ∧ rest = text ∧ NextBelow precedence text) ∨
      ∃ before atOperator operator tail rightLeading atRight right afterRight,
        gap text = .ok (before, atOperator) ∧ operatorNext? atOperator = some (operator, tail) ∧
          precedence ≤ operator.precedence ∧ gap tail = .ok (rightLeading, atRight) ∧
            operand (operator.precedence + 1) rightLeading atRight = .ok (right, afterRight) ∧
              operations operand precedence bound
                (left.leadingFrom fun left => .binary left ⟨before, operator, .empty⟩ right none) afterRight =
                  .ok (result, rest) := by
  unfold operations at read
  simp only [bind_eq_ok, get_eq_ok] at read
  obtain ⟨_, _, ⟨rfl, rfl⟩, before, atOperator, readBefore, _, _, ⟨rfl, rfl⟩, read⟩ := read
  cases found : operatorNext? atOperator with
  | none =>
      simp only [found, bind_eq_ok, set_eq_ok, pure_eq_ok] at read
      obtain ⟨_, _, rfl, rfl, rfl⟩ := read
      refine .inl ⟨rfl, rfl, nextBelow_of_gap readBefore fun operator tail again => ?_⟩
      rw [found] at again
      cases again
  | some pair =>
      obtain ⟨operator, tail⟩ := pair
      simp only [found] at read
      split at read
      · next tighter =>
          simp only [bind_eq_ok, set_eq_ok] at read
          obtain ⟨_, _, rfl, rightLeading, atRight, readLeading, right, afterRight, readRight, read⟩ := read
          exact .inr ⟨before, _, operator, _, rightLeading, atRight, right, afterRight, readBefore, found, tighter,
            readLeading, readRight, read⟩
      · next looser =>
          simp only [bind_eq_ok, set_eq_ok, pure_eq_ok] at read
          obtain ⟨_, _, rfl, rfl, rfl⟩ := read
          refine .inl ⟨rfl, rfl, nextBelow_of_gap readBefore fun other otherTail again => ?_⟩
          rw [found] at again
          obtain ⟨rfl, -⟩ : operator = other ∧ tail = otherTail := by simpa using again
          omega

/-! ## Declarations -/

/-- Two or more words come next, and behind them an opening parenthesis. -/
def OpensHeading (text : Text) : Prop :=
  ∃ first more middle run after, words text = .ok ((first, more), middle) ∧ more ≠ [] ∧
    scanGap middle = .ok (run, '(' :: after)

/-- A declaration is read where a heading opens, and nothing elsewhere. -/
theorem declaration?_cases
    {statement : Parser (RightPadded Tree)}
    {result : Option Tree}
    (read : declaration? statement leading text = .ok (result, rest)) :
    (result = none ∧ rest = text ∧ ¬OpensHeading text) ∨
      OpensHeading text ∧ ∃ first more nameRun name afterWords before atList parameters afterList body,
        words text = .ok ((first, more ++ [(nameRun, name)]), afterWords) ∧ gap afterWords = .ok (before, atList) ∧
          container parameter before (['('], [')']) atList = .ok (parameters, afterList) ∧
            declaration?.body? statement afterList = .ok (body, rest) ∧
              result = some (.spaced leading (.declaration (some (returnType first more))
                (.spaced (.format nameRun) (.identifier name none)) parameters body)) := by
  unfold declaration? at read
  simp only [bind_eq_ok, get_eq_ok] at read
  obtain ⟨_, _, ⟨rfl, rfl⟩, starts, _, looked, read⟩ := read
  obtain ⟨isStart, rfl⟩ := isIdentifierNext_eq_ok.1 looked
  cases starts with
  | false =>
      rw [if_neg Bool.false_ne_true, pure_eq_ok] at read
      refine .inl ⟨read.1.symm, read.2.symm, ?_⟩
      rintro ⟨first, more, middle, run, after, readWords, -, -⟩
      obtain ⟨rfl, isName, -⟩ := eq_append_of_words readWords
      rw [startsIn_append_of_isName isName] at isStart
      cases isStart
  | true =>
      simp only [if_true, bind_eq_ok] at read
      obtain ⟨⟨first, more⟩, afterWords, readWords, read⟩ := read
      cases last : more.getLast? with
      | none =>
          simp only [last, bind_eq_ok, set_eq_ok, pure_eq_ok] at read
          obtain ⟨_, _, rfl, rfl, rfl⟩ := read
          refine .inl ⟨rfl, rfl, ?_⟩
          rintro ⟨other, others, middle, run, after, readAgain, nonempty, -⟩
          rw [readWords] at readAgain
          obtain ⟨⟨-, rfl⟩, -⟩ : (first = other ∧ more = others) ∧ afterWords = middle := by simpa using readAgain
          exact nonempty (List.getLast?_eq_none_iff.1 last)
      | some pair =>
          obtain ⟨nameRun, name⟩ := pair
          obtain ⟨init, rfl⟩ := List.getLast?_eq_some_iff.1 last
          simp only [last, bind_eq_ok] at read
          obtain ⟨isOpen, _, lookedOpen, read⟩ := read
          obtain ⟨rfl, run, after, scanned, isSign⟩ := isNextAfterGap_eq_ok.1 lookedOpen
          cases isOpen with
          | false =>
              simp only [Bool.false_eq_true, if_false, bind_eq_ok, set_eq_ok, pure_eq_ok] at read
              obtain ⟨_, _, rfl, rfl, rfl⟩ := read
              refine .inl ⟨rfl, rfl, ?_⟩
              rintro ⟨other, others, middle, otherRun, otherAfter, readAgain, -, scannedAgain⟩
              rw [readWords] at readAgain
              obtain ⟨-, rfl⟩ : _ ∧ afterWords = middle := by simpa using readAgain
              rw [scanned] at scannedAgain
              obtain ⟨-, rfl⟩ : run = otherRun ∧ after = '(' :: otherAfter := by simpa using scannedAgain
              simp [Text.dropStart?] at isSign
          | true =>
              simp only [if_true, bind_eq_ok, pure_eq_ok] at read
              obtain ⟨before, atList, readBefore, parameters, afterList, readList, body, _, readBody,
                rfl, rfl⟩ := read
              rw [List.dropLast_concat]
              refine .inr ⟨?_, first, init, nameRun, name, afterWords, before, atList, parameters, afterList, body,
                readWords, readBefore, readList, readBody, rfl⟩
              obtain ⟨left, dropped⟩ := Option.isSome_iff_exists.1 isSign
              obtain rfl := Text.eq_append_of_dropStart? dropped
              exact ⟨first, _, afterWords, run, left, readWords, by simp, scanned⟩

/-! ## Statements -/

theorem terminated_eq_ok
    {padded : RightPadded Tree} :
    terminated tree text = .ok (padded, rest) ↔
      ∃ after, gap text = .ok (after, ';' :: rest) ∧ padded = ⟨tree, after, .empty⟩ := by
  unfold terminated
  simp only [bind_eq_ok, expect_eq_ok, pure_eq_ok]
  constructor
  · rintro ⟨after, middle, readAfter, _, _, rfl, rfl, rfl⟩
    exact ⟨after, readAfter, rfl⟩
  · rintro ⟨after, readAfter, rfl⟩
    exact ⟨after, _, readAfter, (), rest, rfl, rfl, rfl⟩

/-- What was read as a statement behind the space before it. A kind is tried after those before it. -/
inductive StatementCase
    (statement : Parser (RightPadded Tree))
    (leading : Space)
    (body : Text) :
    RightPadded Tree -> Text -> Prop
  | block {tree : Tree} {rest : Text} :
      Parser.block statement leading body = .ok (tree, rest) ->
        StatementCase statement leading body (.build tree) rest
  | conditional {tree : Tree} {rest : Text} :
      body.takeWhile Text.isIdentifierPart = "if".toList ->
      Parser.conditional statement leading body = .ok (tree, rest) ->
        StatementCase statement leading body (.build tree) rest
  | empty {rest : Text} :
      body = ';' :: rest -> StatementCase statement leading body (.build (.spaced leading .empty)) rest
  | returns {tree : Tree} {middle rest : Text} {padded : RightPadded Tree} :
      body.takeWhile Text.isIdentifierPart = "return".toList ->
      Parser.returns leading body = .ok (tree, middle) ->
      terminated tree middle = .ok (padded, rest) ->
        StatementCase statement leading body padded rest
  | closedDeclaration {tree : Tree} {rest : Text} :
      body.takeWhile Text.isIdentifierPart ≠ "if".toList ->
      body.takeWhile Text.isIdentifierPart ≠ "return".toList ->
      declaration? statement leading body = .ok (some tree, rest) ->
      tree.form.isSelfTerminated = true ->
        StatementCase statement leading body (.build tree) rest
  | openDeclaration {tree : Tree} {middle rest : Text} {padded : RightPadded Tree} :
      body.takeWhile Text.isIdentifierPart ≠ "if".toList ->
      body.takeWhile Text.isIdentifierPart ≠ "return".toList ->
      declaration? statement leading body = .ok (some tree, middle) ->
      tree.form.isSelfTerminated = false ->
      terminated tree middle = .ok (padded, rest) ->
        StatementCase statement leading body padded rest
  | expression {tree : Tree} {middle rest : Text} {padded : RightPadded Tree} :
      isStatementWord (body.takeWhile Text.isIdentifierPart) = false ->
      ¬OpensHeading body ->
      Parser.expression leading body = .ok (tree, middle) ->
      terminated tree middle = .ok (padded, rest) ->
        StatementCase statement leading body padded rest

theorem declarationOrExpression_cases
    {statement : Parser (RightPadded Tree)}
    {body : Text}
    {padded : RightPadded Tree}
    (noIf : body.takeWhile Text.isIdentifierPart ≠ "if".toList)
    (noReturn : body.takeWhile Text.isIdentifierPart ≠ "return".toList)
    (read : declarationOrExpression statement leading body = .ok (padded, rest)) :
    StatementCase statement leading body padded rest := by
  unfold declarationOrExpression at read
  simp only [bind_eq_ok] at read
  obtain ⟨result, middle, readDeclaration, read⟩ := read
  cases result with
  | some tree =>
      dsimp only at read
      split at read
      · next terminates =>
          obtain ⟨rfl, rfl⟩ := pure_eq_ok.1 read
          exact .closedDeclaration noIf noReturn readDeclaration terminates
      · next needsSign => exact .openDeclaration noIf noReturn readDeclaration (by simpa using needsSign) read
  | none =>
      obtain ⟨-, rfl, noHeading⟩ | ⟨-, _, _, _, _, _, _, _, _, _, _, _, _, _, _, impossible⟩ :=
        declaration?_cases readDeclaration
      · simp only [bind_eq_ok] at read
        obtain ⟨isElse, _, looked, read⟩ := read
        obtain ⟨elseIff, rfl⟩ := (isKeywordNext_eq_ok (by decide)).1 looked
        cases isElse with
        | true => simp at read
        | false =>
            simp only [Bool.false_eq_true, if_false, bind_eq_ok] at read
            obtain ⟨tree, afterTree, readTree, readSign⟩ := read
            refine .expression ?_ noHeading readTree readSign
            simp only [isStatementWord, Bool.or_eq_false_iff, decide_eq_false_iff_not]
            exact ⟨⟨noIf, noReturn⟩, fun isElse => Bool.false_ne_true (elseIff.1 isElse)⟩
      · cases impossible

/-- A statement is of one of the kinds. -/
theorem statementStep_cases
    {statement : Parser (RightPadded Tree)}
    {padded : RightPadded Tree}
    (read : statementStep statement text = .ok (padded, rest)) :
    ∃ leading body, gap text = .ok (leading, body) ∧ StatementCase statement leading body padded rest := by
  unfold statementStep at read
  simp only [bind_eq_ok] at read
  obtain ⟨leading, body, readLeading, isBrace, _, lookedBrace, read⟩ := read
  obtain ⟨-, rfl⟩ := isNext_eq_ok.1 lookedBrace
  refine ⟨leading, _, readLeading, ?_⟩
  split at read
  · simp only [bind_eq_ok, pure_eq_ok] at read
    obtain ⟨tree, _, readBlock, rfl, rfl⟩ := read
    exact .block readBlock
  · simp only [bind_eq_ok] at read
    obtain ⟨isIf, _, lookedIf, read⟩ := read
    obtain ⟨ifIff, rfl⟩ := (isKeywordNext_eq_ok (by decide)).1 lookedIf
    split at read
    · next isIf =>
        simp only [bind_eq_ok, pure_eq_ok] at read
        obtain ⟨tree, _, readConditional, rfl, rfl⟩ := read
        exact .conditional (ifIff.2 isIf) readConditional
    · next noIf =>
        simp only [bind_eq_ok] at read
        obtain ⟨isSign, afterSign, accepted, read⟩ := read
        rcases accept_eq_ok.1 accepted with ⟨rfl, rfl⟩ | ⟨rfl, -, rfl⟩
        · obtain ⟨rfl, rfl⟩ := pure_eq_ok.1 read
          exact .empty rfl
        · simp only [Bool.false_eq_true, if_false, bind_eq_ok] at read
          obtain ⟨isReturn, _, lookedReturn, read⟩ := read
          obtain ⟨returnIff, rfl⟩ := (isKeywordNext_eq_ok (by decide)).1 lookedReturn
          split at read
          · next isReturn =>
              simp only [bind_eq_ok] at read
              obtain ⟨tree, _, readReturns, readSign⟩ := read
              exact .returns (returnIff.2 isReturn) readReturns readSign
          · next noReturn =>
              exact declarationOrExpression_cases (fun isIf => noIf (ifIff.1 isIf))
                (fun isReturn => noReturn (returnIff.1 isReturn)) read

end Java
end Lossless
