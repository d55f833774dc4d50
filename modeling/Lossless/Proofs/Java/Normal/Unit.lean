import Lossless.Proofs.Java.Normal.Statement

/-!
# What every parsed unit looks like

Two things that the normal form tells of all sources: how operators nest, and where an `else` can stand.
-/

namespace Lossless
namespace Java

/-!
## Precedence in parsed trees

Operations nest as their operators bind: to the left when the operators bind equally, and never with an assignment for
an operand. Assignments nest to the right.
-/

namespace Form

/-- The operator of an operation with two operands. -/
def operator? : Form α -> Option Operator
  | binary _ operator _ _ => some operator.element
  | _ => none

def isAssignment : Form α -> Bool
  | assignment .. => true
  | _ => false

variable {form : Form α}

theorem tightness_of_operator?
    {operator : Operator}
    (operates : form.operator? = some operator) :
    form.tightness = operator.precedence := by
  cases form <;> cases operates
  rfl

theorem isAssignment_of_isOperand
    (isOperand : form.isOperand = true) :
    form.isAssignment = false := by
  cases form <;> first | rfl | cases isOperand

end Form

/--
In a parsed tree, an operation to the left of an operator has an operator that binds at least as tightly, and an
operation to its right one that binds more tightly. No operand and no target is an assignment.
-/
theorem operations_nestByPrecedence
    {source : Text}
    {path : Path}
    {tree : Tree}
    (parsed : parse source path = .ok tree)
    {node : Tree}
    (inside : node ∈ tree.nodes) :
    (forall left operator right tag, node.form = .binary left operator right tag ->
      (forall inner, left.form.operator? = some inner -> operator.element.precedence ≤ inner.precedence) ∧
        (forall inner, right.form.operator? = some inner -> operator.element.precedence < inner.precedence) ∧
        left.form.isAssignment = false ∧ right.form.isAssignment = false) ∧
      forall target value tag, node.form = .assignment target value tag -> target.form.isAssignment = false := by
  have nests : node.form.NestsOperands := ((isNormal_of_parse parsed).1 node inside).form.operands
  constructor
  · intro left operator right tag isBinary
    rw [isBinary] at nests
    obtain ⟨⟨leftOperand, leftTight⟩, rightOperand, rightTight⟩ := nests
    refine ⟨fun inner operates => ?_, fun inner operates => ?_, Form.isAssignment_of_isOperand leftOperand,
      Form.isAssignment_of_isOperand rightOperand⟩
    · rwa [Form.tightness_of_operator? operates] at leftTight
    · rwa [Form.tightness_of_operator? operates] at rightTight
  · intro target value tag isAssignment
    rw [isAssignment] at nests
    exact Form.isAssignment_of_isOperand nests

/-- Two subtractions, a multiplication and two assignments, with a third in parentheses. -/
theorem operations_nestByPrecedence_ofStatement :
    exists tree, parse "a = b = c - d - e * (f = g);".toList ⟨"A.java".toList⟩ = .ok tree ∧
      tree.nodes.filterMap (·.form.operator?) = [.subtraction, .subtraction, .multiplication] ∧
      forall node, node ∈ tree.nodes -> forall left operator right tag, node.form = .binary left operator right tag ->
        (forall inner, left.form.operator? = some inner -> operator.element.precedence ≤ inner.precedence) ∧
          (forall inner, right.form.operator? = some inner -> operator.element.precedence < inner.precedence) ∧
          left.form.isAssignment = false ∧ right.form.isAssignment = false := by
  have operators : (parse "a = b = c - d - e * (f = g);".toList ⟨"A.java".toList⟩).toOption.map
      (fun tree => tree.nodes.filterMap (·.form.operator?)) = some [.subtraction, .subtraction, .multiplication] := by
    decide +kernel
  generalize parsed : parse "a = b = c - d - e * (f = g);".toList ⟨"A.java".toList⟩ = outcome at operators
  cases outcome with
  | error => cases operators
  | ok tree =>
      exact ⟨tree, rfl, Option.some.inj operators, fun node inside => (operations_nestByPrecedence parsed inside).1⟩

/-!
## An `else` without an `if`

Where a statement is read and the text starts with `else`, the words are first tried as the heading of a declaration.
Only where no heading opens does the parser come to the complaint about the `else`.
-/

open Lossless.Parser
open Java.Parser

variable {text rest : Text} {leading : Space}

/-! ### Looking for a heading -/

/-- What a look at the words ahead comes to: it ends, or a comment does not. -/
def EndsOrHangs
    (outcome : Except Fault α)
    (ends : α -> Prop) : Prop :=
  (exists value, outcome = .ok value ∧ ends value) ∨
    exists fault, outcome = .error fault ∧ fault.complaint = .unterminatedComment

theorem gapText_of_error
    {opened : Text}
    (hangs : scanGap text = .error opened) :
    gapText text = .error ⟨.unterminatedComment, opened⟩ := by
  unfold gapText
  rw [hangs]

theorem isNextAfterGap_of_error
    {opened : Text}
    (pattern : Text)
    (hangs : scanGap text = .error opened) :
    isNextAfterGap pattern text = .error ⟨.unterminatedComment, opened⟩ := by
  unfold isNextAfterGap
  rw [bind_get]
  exact bind_of_error (gapText_of_error hangs)

theorem identifier_of_startsIn
    (starts : text.startsIn Text.isIdentifierStart = true) :
    identifier text = .ok (text.takeWhile Text.isIdentifierPart, text.dropWhile Text.isIdentifierPart) := by
  unfold identifier
  rw [bind_of_ok (isIdentifierNext_eq_ok.2 ⟨starts, rfl⟩), if_pos rfl]
  rfl

/-- With enough turns, only an open comment keeps the loop over words from ending. -/
theorem moreWords_outcome
    {bound : Nat}
    (enough : text.length < bound) :
    EndsOrHangs (moreWords bound text) fun _ => True := by
  induction bound generalizing text with
  | zero => exact absurd enough (Nat.not_lt_zero _)
  | succ bound ih =>
      rw [moreWords, bind_get]
      cases scanned : scanGap text with
      | error opened => exact .inr ⟨_, bind_of_error (gapText_of_error scanned), rfl⟩
      | ok parts =>
          obtain ⟨run, after⟩ := parts
          rw [bind_of_ok (gapText_eq_ok.2 scanned)]
          cases starts : after.startsIn Text.isIdentifierStart with
          | false =>
              rw [bind_of_ok (isIdentifierNext_eq_ok.2 ⟨starts, rfl⟩)]
              exact .inl ⟨([], text), rfl, trivial⟩
          | true =>
              rw [bind_of_ok (isIdentifierNext_eq_ok.2 ⟨starts, rfl⟩), if_pos rfl]
              have readWord := identifier_of_startsIn starts
              rw [bind_of_ok readWord]
              obtain ⟨whole, isName, -⟩ := identifier_eq_ok.1 readWord
              -- a turn takes a word, so that the turns last as long as the text
              have shorter : (after.dropWhile Text.isIdentifierPart).length < bound := by
                have wordLength := List.length_pos_iff.2 (ne_nil_of_isName isName)
                have textLength := congrArg List.length (eq_append_of_scanGap scanned)
                have afterLength := congrArg List.length whole
                rw [List.length_append] at textLength afterLength
                omega
              rcases ih shorter with ⟨⟨others, left⟩, readOthers, -⟩ | ⟨fault, failed, hangs⟩
              · rw [bind_of_ok readOthers]
                exact .inl ⟨_, rfl, trivial⟩
              · exact .inr ⟨fault, bind_of_error failed, hangs⟩

theorem words_outcome
    (starts : text.startsIn Text.isIdentifierStart = true) :
    EndsOrHangs (words text) fun _ => True := by
  rw [words, bind_of_ok (identifier_of_startsIn starts), bind_get]
  rcases moreWords_outcome (Nat.lt_succ_self (text.dropWhile Text.isIdentifierPart).length) with
    ⟨⟨others, left⟩, readOthers, -⟩ | ⟨fault, failed, hangs⟩
  · rw [bind_of_ok readOthers]
    exact .inl ⟨_, rfl, trivial⟩
  · exact .inr ⟨fault, bind_of_error failed, hangs⟩

/-- Where no heading opens, no declaration is read. -/
theorem declaration?_outcome
    (statement : Parser (RightPadded Tree))
    (noHeading : ¬OpensHeading text) :
    EndsOrHangs (declaration? statement leading text) fun result => result = (none, text) := by
  rw [declaration?, bind_get]
  cases starts : text.startsIn Text.isIdentifierStart with
  | false =>
      rw [bind_of_ok (isIdentifierNext_eq_ok.2 ⟨starts, rfl⟩)]
      exact .inl ⟨_, rfl, rfl⟩
  | true =>
      rw [bind_of_ok (isIdentifierNext_eq_ok.2 ⟨starts, rfl⟩), if_pos rfl]
      rcases words_outcome starts with ⟨⟨⟨first, more⟩, middle⟩, readWords, -⟩ | ⟨fault, failed, hangs⟩
      · rw [bind_of_ok readWords]
        dsimp only
        cases last : more.getLast? with
        | none => exact .inl ⟨_, rfl, rfl⟩
        | some pair =>
            obtain ⟨nameRun, name⟩ := pair
            dsimp only
            cases scanned : scanGap middle with
            | error opened => exact .inr ⟨_, bind_of_error (isNextAfterGap_of_error ['('] scanned), rfl⟩
            | ok parts =>
                obtain ⟨run, after⟩ := parts
                -- two words and a parenthesis would be a heading
                have noSign : (Text.dropStart? ['('] after).isSome = false := by
                  refine Bool.eq_false_iff.2 fun isSign => noHeading ?_
                  obtain ⟨left, dropped⟩ := Option.isSome_iff_exists.1 isSign
                  obtain rfl := Text.eq_append_of_dropStart? dropped
                  refine ⟨first, more, middle, run, left, readWords, ?_, scanned⟩
                  rintro rfl
                  cases last
                rw [bind_of_ok (isNextAfterGap_eq_ok.2 ⟨rfl, run, after, scanned, noSign⟩)]
                exact .inl ⟨_, rfl, rfl⟩
      · exact .inr ⟨fault, bind_of_error failed, hangs⟩

/-! ### Statements that start with `else` -/

section Statement

variable {statement : Parser (RightPadded Tree)} {run body : Text}

/-- Where no heading opens, an `else` is complained about. -/
theorem statementStep_of_orphan
    (scanned : scanGap text = .ok (run, body))
    (isElse : body.takeWhile Text.isIdentifierPart = "else".toList)
    (noHeading : ¬OpensHeading body) :
    exists fault, statementStep statement text = .error fault ∧
      (fault = ⟨.elseWithoutIf, body⟩ ∨ fault.complaint = .unterminatedComment) := by
  obtain ⟨after, dropped, -⟩ := (takeWhile_eq_keyword_iff (by decide)).1 isElse
  obtain rfl := Text.eq_append_of_dropStart? dropped
  have other (keyword : Text) (inside : keyword.all Text.isIdentifierPart = true) (differs : "else".toList ≠ keyword) :
      isKeywordNext keyword ("else".toList ++ after) = .ok (false, "else".toList ++ after) :=
    (isKeywordNext_eq_ok inside).2 ⟨⟨fun same => absurd (isElse.symm.trans same) differs, nofun⟩, rfl⟩
  have noBrace : isNext ['\x7b'] ("else".toList ++ after) = .ok (false, "else".toList ++ after) := isNext_eq _ _
  have noSign : accept [';'] ("else".toList ++ after) = .ok (false, "else".toList ++ after) := accept_of_none rfl
  -- what is tried before a declaration does not apply: the text starts with another keyword than those
  rw [statementStep, bind_of_ok (gap_eq_ok.2 ⟨run, scanned, rfl⟩), bind_of_ok noBrace, if_neg Bool.false_ne_true,
    bind_of_ok (other "if".toList (by decide) (by decide)), if_neg Bool.false_ne_true, bind_of_ok noSign,
    if_neg Bool.false_ne_true, bind_of_ok (other "return".toList (by decide) (by decide)),
    if_neg Bool.false_ne_true, declarationOrExpression]
  rcases declaration?_outcome statement noHeading with ⟨_, readNone, rfl⟩ | ⟨fault, failed, hangs⟩
  · have atElse : isKeywordNext "else".toList ("else".toList ++ after) = .ok (true, "else".toList ++ after) :=
      (isKeywordNext_eq_ok (by decide)).2 ⟨⟨fun _ => rfl, fun _ => isElse⟩, rfl⟩
    rw [bind_of_ok readNone]
    dsimp only
    rw [bind_of_ok atElse, if_pos rfl]
    exact ⟨_, rfl, .inl rfl⟩
  · exact ⟨fault, bind_of_error failed, .inr hangs⟩

/-- A statement that starts with `else` is a declaration whose heading opens there. -/
theorem isDeclaration_of_orphan
    {padded : RightPadded Tree}
    (scanned : scanGap text = .ok (run, body))
    (isElse : body.takeWhile Text.isIdentifierPart = "else".toList)
    (read : statementStep statement text = .ok (padded, rest)) :
    OpensHeading body ∧ padded.element.form.isDeclaration = true ∧ padded.element.firstWord = "else".toList := by
  obtain ⟨leading, again, readLeading, isCase⟩ := statementStep_cases read
  obtain ⟨otherRun, scannedAgain, -⟩ := gap_eq_ok.1 readLeading
  rw [scanned] at scannedAgain
  obtain ⟨-, rfl⟩ : run = otherRun ∧ body = again := by simpa using scannedAgain
  have heading {tree : Tree} {middle : Text} (readDeclaration : declaration? statement leading body = .ok (some tree, middle)) :
      OpensHeading body ∧ tree.form.isDeclaration = true ∧ tree.firstWord = "else".toList := by
    obtain ⟨isDeclaration, word⟩ := firstWord_of_declaration? readDeclaration
    obtain ⟨impossible, -⟩ | ⟨opens, -⟩ := declaration?_cases readDeclaration
    · cases impossible
    · exact ⟨opens, isDeclaration, word.trans isElse⟩
  cases isCase with
  | block readBlock =>
      obtain ⟨_, middle, opened, -⟩ := bind_eq_ok.1 readBlock
      rw [expect_eq_ok.1 opened] at isElse
      exact absurd (show ([] : Text) = "else".toList from isElse) (by decide)
  | conditional word => exact absurd (word.symm.trans isElse) (by decide)
  | empty isSign =>
      rw [isSign] at isElse
      exact absurd (show ([] : Text) = "else".toList from isElse) (by decide)
  | returns word => exact absurd (word.symm.trans isElse) (by decide)
  | closedDeclaration _ _ readDeclaration => exact heading readDeclaration
  | openDeclaration _ _ readDeclaration _ readSign =>
      obtain ⟨after, -, rfl⟩ := terminated_eq_ok.1 readSign
      exact heading readDeclaration
  | expression noKeyword =>
      rw [isElse] at noKeyword
      exact absurd noKeyword (by decide)

end Statement

/--
A statement that starts with `else` is rejected there, unless the words ahead are the heading of a declaration, which
is then all that can be read. So what starts with `else` among the statements of a parsed tree is a declaration.
-/
theorem else_opensOnlyDeclarations
    (nestings : Nat)
    (text source : Text)
    (path : Path) :
    (forall run body, scanGap text = .ok (run, body) -> body.takeWhile Text.isIdentifierPart = "else".toList ->
      (¬OpensHeading body -> ∃ fault, statementWithin (nestings + 1) text = .error fault ∧
        (fault = ⟨.elseWithoutIf, body⟩ ∨ fault.complaint = .unterminatedComment)) ∧
      forall padded rest, statementWithin (nestings + 1) text = .ok (padded, rest) ->
        OpensHeading body ∧ padded.element.form.isDeclaration = true ∧
          padded.element.firstWord = "else".toList) ∧
      forall tree, parse source path = .ok tree -> forall node, node ∈ tree.nodes ->
        forall padded, padded ∈ node.form.paddedStatements -> padded.element.firstWord = "else".toList ->
          padded.element.form.isDeclaration = true := by
  constructor
  · intro run body scanned isElse
    exact ⟨statementStep_of_orphan scanned isElse, fun padded rest => isDeclaration_of_orphan scanned isElse⟩
  · intro tree parsed node inside padded isStatement
    exact (((isNormal_of_parse parsed).1 node inside).form.statements padded isStatement).orphan

/-- A name behind the `else` opens no heading, a name with a list does, and is read as a declaration. -/
theorem else_opensOnlyDeclarations_ofName :
    (∃ fault, statementWithin 1 "else a;".toList = .error fault ∧
      (fault = ⟨.elseWithoutIf, "else a;".toList⟩ ∨ fault.complaint = .unterminatedComment)) ∧
      ∃ padded rest, statementWithin 1 "else a();".toList = .ok (padded, rest) ∧
        padded.element.form.isDeclaration = true ∧ padded.element.firstWord = "else".toList := by
  have noHeading : ¬OpensHeading "else a;".toList := by
    rintro ⟨first, more, middle, run, after, readWords, -, scanned⟩
    have readAgain : words "else a;".toList = .ok (("else".toList, [([' '], ['a'])]), [';']) := by decide +kernel
    rw [readAgain] at readWords
    obtain ⟨-, rfl⟩ : _ ∧ [';'] = middle := by simpa using readWords
    cases scanned
  have isOk : (statementWithin 1 "else a();".toList).isOk = true := by decide +kernel
  generalize read : statementWithin 1 "else a();".toList = outcome at isOk
  cases outcome with
  | error => cases isOk
  | ok parts =>
      obtain ⟨padded, rest⟩ := parts
      have rejected := ((else_opensOnlyDeclarations 0 "else a;".toList [] ⟨[]⟩).1
        [] "else a;".toList (by decide +kernel) (by decide +kernel)).1 noHeading
      have declared := ((else_opensOnlyDeclarations 0 "else a();".toList [] ⟨[]⟩).1
        [] "else a();".toList (by decide +kernel) (by decide +kernel)).2 padded rest read
      exact ⟨rejected, padded, rest, rfl, declared.2⟩

end Java
end Lossless
