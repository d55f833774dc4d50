import Lossless.Proofs.Java.Cases
import Lossless.Proofs.Java.Normal.Expression
import Lossless.Proofs.Java.RoundTrip

/-!
# Statements and units in normal form

Every source is parsed as a unit in normal form. What a statement starts with is told by the text that it was read
from, so that an `else` opens nothing but a declaration.
-/

namespace Lossless
namespace Java

open Lossless.Parser
open Java.Parser

/-!
## The first word that is read

A tree that starts with a name was read where the text does. Chains, operations and assignments keep the first token of
the tree that they go on from, so that for expressions the primary one decides.
-/

section FirstWords

variable {text rest : Text} {leading : Space} {tree : Tree}

namespace Tree

theorem firstToken_congr
    {left right : Tree}
    (same : left.form = right.form) :
    left.firstToken = right.firstToken := by
  rw [firstToken_eq, firstToken_eq, same]

@[simp] theorem firstToken_withLeading
    (tree : Tree)
    (leading : Space) :
    (tree.withLeading leading).firstToken = tree.firstToken :=
  firstToken_congr (form_withLeading tree leading)

theorem firstWord_ne
    {word : Text}
    (token : Text)
    (first : tree.firstToken = token)
    (other : token.takeWhile Text.isIdentifierPart ≠ word) :
    tree.firstWord ≠ word := by
  rw [firstWord, first]
  exact other

end Tree

/-! ### Expressions -/

/-- Where the tree starts with a name, the text does. -/
def OpensAs
    (text : Text)
    (tree : Tree) : Prop :=
  isName tree.firstWord = true -> text.takeWhile Text.isIdentifierPart = tree.firstWord

/-- A tree whose first token is no name. -/
theorem opensAs_of_startsIn (outside : tree.firstToken.startsIn Text.isIdentifierStart = false) : OpensAs text tree := by
  intro isName
  have starts := (isName_iff.1 isName).1
  rw [Tree.firstWord] at starts
  cases token : tree.firstToken with
  | nil =>
      rw [token] at starts
      cases starts
  | cons first more =>
      rw [token] at starts outside
      change Text.isIdentifierStart first = false at outside
      cases inside : Text.isIdentifierPart first with
      | false =>
          rw [List.takeWhile_cons_of_neg (by simp [inside])] at starts
          cases starts
      | true =>
          rw [List.takeWhile_cons_of_pos inside] at starts
          exact absurd (starts.symm.trans outside) Bool.noConfusion

/-- A tree whose first token is a name that was read. -/
theorem opensAs_of_name
    {name : Text}
    (isName : isName name = true)
    (outside : rest.startsIn Text.isIdentifierPart = false)
    (token : tree.firstToken = name) :
    OpensAs (name ++ rest) tree := by
  intro _
  have inside := (isName_iff.1 isName).2
  have alone : (name ++ []).takeWhile Text.isIdentifierPart = name := Text.takeWhile_run inside rfl
  rw [List.append_nil] at alone
  rw [Text.takeWhile_run inside outside, Tree.firstWord, token, alone]

/-- No number starts like a name. -/
theorem isIdentifierStart_of_isNumberStart
    {first : Char}
    {more : Text}
    (isNumber : isNumberStart (first :: more) = true) :
    Text.isIdentifierStart first = false := by
  by_cases isMinus : first = '-'
  · subst isMinus
    rfl
  · refine Text.isIdentifierStart_of_isDigit ?_
    unfold isNumberStart at isNumber
    split at isNumber
    · next equal => exact absurd (List.cons.inj equal).1 isMinus
    · next equal =>
        obtain ⟨rfl, -⟩ := List.cons.inj equal
        exact isNumber
    · cases isNumber

section Expression

variable {expression : Space -> Parser Tree}

theorem opensAs_word (read : word expression leading text = .ok (tree, rest)) : OpensAs text tree := by
  obtain ⟨name, middle, rfl, isName, outside, ⟨-, rfl, -⟩ | ⟨-, arguments, -, rfl⟩⟩ := word_cases read
  · exact opensAs_of_name isName outside (Tree.firstToken_eq _)
  · refine opensAs_of_name isName outside ?_
    cases arguments with
    | none => exact Tree.firstToken_eq _
    | some list => exact (Tree.firstToken_eq _).trans (Tree.firstToken_eq _)

theorem opensAs_primary (read : primary expression leading text = .ok (tree, rest)) : OpensAs text tree := by
  unfold primary at read
  rw [bind_get] at read
  cases text with
  | nil => simp at read
  | cons first more =>
      dsimp only at read
      split at read
      · have token : Gives (parentheses expression leading) fun tree => tree.firstToken = ['('] :=
          .skip fun _ => .skip fun _ => .skip fun _ => .skip fun _ => .skip fun _ => .pure (Tree.firstToken_eq _)
        exact opensAs_of_startsIn (by rw [token _ _ _ read]; rfl)
      · split at read
        · have token : Gives (do
              let elements <- container expression .empty (['['], [']'])
              return Tree.spaced leading (.collection .list elements none)) fun tree => tree.firstToken = ['['] :=
            .skip fun _ => .pure (Tree.firstToken_eq _)
          exact opensAs_of_startsIn (by rw [token _ _ _ read]; rfl)
        · split at read
          · next isQuote =>
              cases found : splitQuoted? first false more with
              | none => simp [found] at read
              | some parts =>
                  simp only [found, bind_eq_ok, set_eq_ok, pure_eq_ok] at read
                  obtain ⟨_, _, rfl, rfl, rfl⟩ := read
                  refine opensAs_of_startsIn ?_
                  rw [Tree.firstToken_eq]
                  simp only [Bool.or_eq_true, decide_eq_true_eq] at isQuote
                  rcases isQuote with rfl | rfl <;> rfl
          · split at read
            · next isNumber =>
                simp only [bind_eq_ok, set_eq_ok, pure_eq_ok] at read
                obtain ⟨_, _, rfl, body, _, -, rfl, rfl⟩ := read
                refine opensAs_of_startsIn ?_
                rw [Tree.firstToken_eq]
                exact isIdentifierStart_of_isNumberStart isNumber
            · split at read
              · exact opensAs_word read
              · simp at read

/-! ### Going on from an expression -/

/-- What a parser gives starts with the first token of a tree. -/
abbrev KeepsFirst
    (parser : Parser Tree)
    (tree : Tree) : Prop :=
  Gives parser fun result => result.firstToken = tree.firstToken

theorem keepsFirst_postfixes
    (bound : Nat)
    (tree : Tree) :
    KeepsFirst (postfixes expression bound tree) tree := by
  induction bound generalizing tree with
  | zero => exact .fail _
  | succ bound ih =>
      refine .skip fun saved => .skip fun beforeDot => .skip fun isDot => ?_
      split
      · refine .skip fun nameLeading => .skip fun text => .skip fun arguments => ?_
        cases arguments with
        | none =>
            refine fun text result rest read => (ih _ text result rest read).trans ?_
            exact (Tree.firstToken_eq _).trans (Tree.firstToken_withLeading tree .empty)
        | some list =>
            refine fun text result rest read => (ih _ text result rest read).trans ?_
            exact (Tree.firstToken_eq _).trans (Tree.firstToken_withLeading tree .empty)
      · exact .skip fun _ => .pure rfl

theorem keepsFirst_operations
    {operand : Nat -> Space -> Parser Tree}
    (precedence bound : Nat)
    (left : Tree) :
    KeepsFirst (operations operand precedence bound left) left := by
  intro text result rest read
  induction bound generalizing left text with
  | zero => simp [operations] at read
  | succ bound ih =>
      obtain ⟨rfl, -, -⟩ | ⟨before, _, operator, _, _, _, right, _, -, -, -, -, -, readMore⟩ := operations_cases read
      · rfl
      · exact (ih _ _ readMore).trans ((Tree.firstToken_eq _).trans (Tree.firstToken_withLeading left .empty))

theorem opensAs_congr
    {other : Tree}
    (same : other.firstToken = tree.firstToken)
    (opens : OpensAs text tree) :
    OpensAs text other := by
  unfold OpensAs Tree.firstWord
  rw [same]
  exact opens

theorem opensAs_chained (read : chained expression leading text = .ok (tree, rest)) : OpensAs text tree := by
  unfold chained at read
  simp only [bind_eq_ok, get_eq_ok] at read
  obtain ⟨first, middle, readFirst, _, _, ⟨rfl, rfl⟩, readMore⟩ := read
  exact opensAs_congr (keepsFirst_postfixes _ first _ _ _ readMore) (opensAs_primary readFirst)

theorem opensAs_binary
    {levels precedence : Nat}
    (read : binary expression levels precedence leading text = .ok (tree, rest)) :
    OpensAs text tree := by
  cases levels with
  | zero => exact opensAs_chained read
  | succ levels =>
      unfold binary at read
      simp only [bind_eq_ok, get_eq_ok] at read
      obtain ⟨first, middle, readFirst, _, _, ⟨rfl, rfl⟩, readMore⟩ := read
      exact opensAs_congr (keepsFirst_operations _ _ first _ _ _ readMore) (opensAs_chained readFirst)

theorem opensAs_expressionStep (read : expressionStep expression leading text = .ok (tree, rest)) :
    OpensAs text tree := by
  unfold expressionStep at read
  obtain ⟨target, middle, readTarget, read⟩ := bind_eq_ok.1 read
  refine opensAs_congr ?_ (opensAs_binary readTarget)
  have keeps : KeepsFirst (do
      let saved <- get
      let before <- gap
      if !(<- isNext ['=', '=']) && (<- accept ['=']) then
        let valueLeading <- gap
        let value <- expression valueLeading
        return target.leadingFrom fun target => .assignment target ⟨before, value, .empty⟩ none
      else
        set saved
        return target) target := by
    refine .skip fun saved => .skip fun before => .skip fun isEquality => .skip fun isAssignment => ?_
    split
    · refine .skip fun valueLeading => .skip fun value => .pure ?_
      exact (Tree.firstToken_eq _).trans (Tree.firstToken_withLeading target .empty)
    · exact .skip fun _ => .pure rfl
  exact keeps _ _ _ read

end Expression

theorem opensAs_expression (read : Parser.expression leading text = .ok (tree, rest)) : OpensAs text tree := by
  unfold Parser.expression at read
  rw [bind_get, expressionWithin] at read
  exact opensAs_expressionStep read

/-! ### Declarations -/

theorem firstWord_of_declaration?
    {statement : Parser (RightPadded Tree)}
    (read : declaration? statement leading text = .ok (some tree, rest)) :
    tree.form.isDeclaration = true ∧ tree.firstWord = text.takeWhile Text.isIdentifierPart := by
  obtain ⟨impossible, -⟩ | ⟨-, first, more, nameRun, name, afterWords, before, atList, parameters, afterList, body,
    readWords, -, -, -, equal⟩ := declaration?_cases read
  · cases impossible
  · obtain rfl := Option.some.inj equal
    obtain ⟨rfl, isName, outside⟩ := eq_append_of_words readWords
    -- the words of the type are the first of the heading, and no name goes on behind the first word of that
    have typeOutside : (writtenWords more).startsIn Text.isIdentifierPart = false := by
      refine Bool.eq_false_iff.2 fun starts => ?_
      rw [writtenWords, List.flatMap_append, List.append_assoc] at outside
      exact absurd (outside.symm.trans (Text.startsIn_append starts _)) Bool.noConfusion
    refine ⟨rfl, ?_⟩
    rw [Text.takeWhile_run (isName_iff.1 isName).2 outside, Tree.firstWord, Tree.firstToken_eq]
    exact firstWord_returnType isName typeOutside

end FirstWords

/-!
## Sources in normal form

Every text that is read as a statement is read as one in normal form, and so is every source that is parsed. What the
text says is needed in one place: an expression is read as a statement only where the text does not start with `else`,
and then the expression does not start with it either.
-/

variable {leading : Space}

/-! ### Forms of statements -/

/-- A statement in normal form, with the space behind it. -/
structure NormalStatement (padded : RightPadded Tree) : Prop where
  fits : IsNormalStatement padded
  plain : padded.after.IsPlain
  normal : padded.element.IsNormal

theorem NormalStatement.spaces
    {padded : RightPadded Tree}
    (statement : NormalStatement padded) :
    forall space, space ∈ padded.allSpaces (fun _ => []) -> space.IsPlain := by
  have noSuffixes : padded.markers.suffixes = [] := by
    rw [Markers.suffixes, Markers.findAll, statement.fits.unmarked, List.filterMap_nil]
  rw [RightPadded.allSpaces, noSuffixes]
  exact List.forall_mem_singleton.2 statement.plain

/-- Statements one after the other, each in normal form. -/
def NormalStatements (list : List (RightPadded Tree)) : Prop :=
  forall padded, padded ∈ list -> NormalStatement padded

namespace NormalStatements

variable {list : List (RightPadded Tree)}

theorem spaces (statements : NormalStatements list) :
    forall space, space ∈ list.flatMap (·.allSpaces fun _ => []) -> space.IsPlain := by
  intro space member
  obtain ⟨padded, isStatement, inside⟩ := List.mem_flatMap.1 member
  exact (statements padded isStatement).spaces space inside

theorem normal (statements : NormalStatements list) :
    forall child, child ∈ RightPadded.elements list -> child.IsNormal :=
  List.forall_mem_map.2 fun padded isStatement => (statements padded isStatement).normal

end NormalStatements

namespace Form

variable {list : List (RightPadded Tree)} {padded : RightPadded Tree} {space : Space}

theorem isNormal_compilationUnit
    {source : SourceInfo}
    (statements : NormalStatements list)
    (plain : space.IsPlain) :
    (Form.compilationUnit .java source list space).IsNormal where
  opening := nofun
  statements := fun padded isStatement => (statements padded isStatement).fits
  elements := nofun
  operands := trivial
  operandMarkers := nofun
  spaces := List.forall_mem_append.2 ⟨statements.spaces, List.forall_mem_singleton.2 plain⟩

theorem isNormal_block
    (statements : NormalStatements list)
    (plain : space.IsPlain) :
    (Form.block list space).IsNormal where
  opening := nofun
  statements := fun padded isStatement => (statements padded isStatement).fits
  elements := nofun
  operands := trivial
  operandMarkers := nofun
  spaces := List.forall_mem_append.2 ⟨statements.spaces, List.forall_mem_singleton.2 plain⟩

theorem isNormal_conditional
    {condition : Tree}
    {alternative : Option Tree}
    (consequence : NormalStatement padded) :
    (Form.conditional condition padded alternative).IsNormal where
  opening := nofun
  statements := List.forall_mem_singleton.2 consequence.fits
  elements := nofun
  operands := trivial
  operandMarkers := nofun
  spaces := by
    cases alternative <;> simpa [allSpaces] using consequence.spaces

theorem isNormal_otherwise (body : NormalStatement padded) : (Form.otherwise padded).IsNormal where
  opening := nofun
  statements := List.forall_mem_singleton.2 body.fits
  elements := nofun
  operands := trivial
  operandMarkers := nofun
  spaces := body.spaces

theorem isNormal_returns {value : Option Tree} : (Form.returns value).IsNormal where
  opening := nofun
  statements := nofun
  elements := nofun
  operands := trivial
  operandMarkers := nofun
  spaces := by
    cases value <;> exact nofun

theorem isNormal_declaration
    {nameLeading : Space}
    {first name : Text}
    {more : List (Text × Text)}
    {parameters : Container Tree}
    {body : Option Tree}
    (normal : NormalContainer isWords parameters) :
    (Form.declaration (some (returnType first more)) (.spaced nameLeading (.identifier name none)) parameters
      body).IsNormal where
  opening := by
    rintro _ ⟨⟩
    cases more <;> rfl
  statements := nofun
  elements := by
    rintro _ ⟨⟩
    exact normal.fits_of_isEmpty fun _ => isEmpty_of_isWords
  operands := trivial
  operandMarkers := nofun
  spaces := by
    cases body <;> simpa [allSpaces] using normal.spaces

end Form
namespace Parser

/-! ### Parameters and returns -/

theorem normal_parameter : GivesNormal Form.isWords parameter := by
  intro leading plain
  refine .skip fun (first, more) => ?_
  cases more <;> exact .pure ⟨isNormal_leaf rfl plain, rfl⟩

theorem normal_returnType
    (first : Text)
    (more : List (Text × Text)) :
    (returnType first more).IsNormal := by
  cases more <;> exact isNormal_leaf rfl Space.isPlain_empty

theorem normal_returns
    (plain : leading.IsPlain) :
    Gives (returns leading) fun tree => tree.IsNormal ∧ exists value, tree.form = .returns value := by
  refine .skip fun _ => .skip fun isBare => ?_
  split
  · exact .pure ⟨Tree.isNormal_spaced plain Form.isNormal_returns nofun, none, rfl⟩
  · refine .bind gives_gap fun valueLeading valuePlain => ?_
    refine .bind (normal_expression valueLeading valuePlain) fun value known => .pure ⟨?_, some value, rfl⟩
    exact Tree.isNormal_spaced plain Form.isNormal_returns (List.forall_mem_singleton.2 known.1)

/-! ### Blocks and conditionals -/

section Statement

variable {statement : Parser (RightPadded Tree)} (gives : Gives statement NormalStatement)

include gives

theorem normal_blockStatements (bound : Nat) :
    Gives (blockStatements statement bound) fun parts => NormalStatements parts.1 ∧ parts.2.IsPlain := by
  induction bound with
  | zero => exact .fail _
  | succ bound ih =>
      refine .skip fun saved => .bind gives_gap fun closing plain => .skip fun closed => ?_
      split
      · exact .pure ⟨nofun, plain⟩
      · refine .skip fun text => ?_
        split
        · exact .fail _
        · refine .skip fun _ => .bind gives fun first isFirst => .bind ih fun parts ⟨areRest, restPlain⟩ => ?_
          exact .pure ⟨List.forall_mem_cons.2 ⟨isFirst, areRest⟩, restPlain⟩

theorem normal_block : GivesNormal Form.isBlock (block statement) := by
  intro leading plain
  refine .skip fun _ => .skip fun text => .bind (normal_blockStatements gives _) fun parts known => .pure ⟨?_, rfl⟩
  obtain ⟨statements, closingPlain⟩ := known
  exact Tree.isNormal_spaced plain (Form.isNormal_block statements closingPlain) statements.normal

theorem normal_alternative :
    Gives (alternative statement) fun tree => forall child, child ∈ tree.toList -> child.IsNormal := by
  refine .skip fun saved => .bind gives_gap fun leading plain => .skip fun isElse => ?_
  split
  · refine .skip fun _ => .bind gives fun body isBody => .pure (List.forall_mem_singleton.2 ?_)
    exact Tree.isNormal_spaced plain (Form.isNormal_otherwise isBody) (List.forall_mem_singleton.2 isBody.normal)
  · exact .skip fun _ => .pure nofun

theorem normal_conditional
    (plain : leading.IsPlain) :
    Gives (conditional statement leading) fun tree =>
      tree.IsNormal ∧ exists condition consequence alternative,
        tree.form = .conditional condition consequence alternative := by
  refine .skip fun _ => .bind gives_gap fun conditionLeading conditionPlain => ?_
  refine .bind (normal_parentheses normal_expression conditionLeading conditionPlain) fun condition known => ?_
  refine .bind gives fun consequence isConsequence => .bind (normal_alternative gives) fun alternative areNormal => ?_
  refine .pure ⟨Tree.isNormal_spaced plain (Form.isNormal_conditional isConsequence) ?_, _, _, _, rfl⟩
  exact List.forall_mem_cons.2 ⟨known.1, List.forall_mem_cons.2 ⟨isConsequence.normal, areNormal⟩⟩

/-! ### Declarations -/

theorem normal_body? :
    Gives (declaration?.body? statement) fun tree => forall child, child ∈ tree.toList -> child.IsNormal := by
  refine .skip fun isBlock => ?_
  split
  · refine .bind gives_gap fun leading plain => .bind (normal_block gives leading plain) fun tree known => ?_
    exact .pure (List.forall_mem_singleton.2 known.1)
  · exact .pure nofun

theorem normal_declaration?
    {tree : Tree}
    {text rest : Text}
    (plain : leading.IsPlain)
    (read : declaration? statement leading text = .ok (some tree, rest)) :
    tree.IsNormal := by
  obtain ⟨impossible, -⟩ | ⟨-, first, more, nameRun, name, afterWords, before, atList, parameters, afterList, body, -,
    readBefore, readList, readBody, equal⟩ := declaration?_cases read
  · cases impossible
  · obtain rfl := Option.some.inj equal
    have normal := normal_container normal_parameter (gives_gap _ _ _ readBefore) _ _ _ _ readList
    have atBody := normal_body? gives _ _ _ readBody
    have isName : (Tree.spaced (.format nameRun) (.identifier name none)).IsNormal :=
      isNormal_leaf rfl (Space.isPlain_format nameRun)
    refine Tree.isNormal_spaced plain (Form.isNormal_declaration normal) ?_
    refine List.forall_mem_append.2 ⟨?_, atBody⟩
    exact List.forall_mem_cons.2 ⟨normal_returnType first more, List.forall_mem_cons.2 ⟨isName, normal.parts⟩⟩

/-! ### All statements -/

omit gives in
/-- A statement that ends by itself. -/
theorem normalStatement_build
    {tree : Tree}
    (normal : tree.IsNormal)
    (isUnknown : tree.form.isUnknown = false)
    (orphan : tree.firstWord = "else".toList -> tree.form.isDeclaration = true) :
    NormalStatement (.build tree) where
  fits := ⟨fun _ => rfl, rfl, isUnknown, orphan⟩
  plain := Space.isPlain_empty
  normal := normal

omit gives in
/-- A statement with a semicolon. -/
theorem normalStatement_terminated
    {tree : Tree}
    {text rest : Text}
    {padded : RightPadded Tree}
    (normal : tree.IsNormal)
    (needsSign : tree.form.isSelfTerminated = false)
    (nonempty : tree.form.isEmpty = false)
    (isUnknown : tree.form.isUnknown = false)
    (orphan : tree.firstWord = "else".toList -> tree.form.isDeclaration = true)
    (read : terminated tree text = .ok (padded, rest)) :
    NormalStatement padded := by
  obtain ⟨after, readAfter, rfl⟩ := terminated_eq_ok.1 read
  refine ⟨⟨?_, rfl, isUnknown, orphan⟩, gives_gap _ _ _ readAfter, normal⟩
  rintro (terminates | isEmpty)
  · exact absurd (terminates.symm.trans needsSign) Bool.noConfusion
  · exact absurd (isEmpty.symm.trans nonempty) Bool.noConfusion

theorem normal_statementStep : Gives (statementStep statement) NormalStatement := by
  intro text padded rest read
  obtain ⟨leading, body, readLeading, isCase⟩ := statementStep_cases read
  have plain := gives_gap _ _ _ readLeading
  cases isCase with
  | block readBlock =>
      obtain ⟨normal, isBlock⟩ := normal_block gives leading plain _ _ _ readBlock
      obtain ⟨statements, closing, form⟩ := Form.exists_of_isBlock isBlock
      refine normalStatement_build normal (Form.isUnknown_of_isBlock isBlock) fun isElse => absurd isElse ?_
      exact Tree.firstWord_ne ['\x7b'] (by rw [Tree.firstToken_eq, form]) (by decide)
  | conditional word readConditional =>
      obtain ⟨normal, condition, consequence, alternative, form⟩ :=
        normal_conditional gives plain _ _ _ readConditional
      refine normalStatement_build normal (by rw [form]; rfl) fun isElse => absurd isElse ?_
      exact Tree.firstWord_ne "if".toList (by rw [Tree.firstToken_eq, form]) (by decide)
  | empty isSign =>
      refine normalStatement_build (isNormal_leaf rfl plain) rfl fun isElse => absurd isElse ?_
      exact Tree.firstWord_ne [] (Tree.firstToken_eq _) (by decide)
  | returns word readReturns readSign =>
      obtain ⟨normal, value, form⟩ := normal_returns plain _ _ _ readReturns
      refine normalStatement_terminated normal (by rw [form]; rfl) (by rw [form]; rfl) (by rw [form]; rfl) ?_ readSign
      refine fun isElse => absurd isElse ?_
      exact Tree.firstWord_ne "return".toList (by rw [Tree.firstToken_eq, form]) (by decide)
  | closedDeclaration noIf noReturn readDeclaration terminates =>
      have normal := normal_declaration? gives plain readDeclaration
      obtain ⟨isDeclaration, -⟩ := firstWord_of_declaration? readDeclaration
      exact normalStatement_build normal (Form.isUnknown_of_isDeclaration isDeclaration) fun _ => isDeclaration
  | openDeclaration noIf noReturn readDeclaration needsSign readSign =>
      have normal := normal_declaration? gives plain readDeclaration
      obtain ⟨isDeclaration, -⟩ := firstWord_of_declaration? readDeclaration
      exact normalStatement_terminated normal needsSign (Form.isEmpty_of_isDeclaration isDeclaration)
        (Form.isUnknown_of_isDeclaration isDeclaration) (fun _ => isDeclaration) readSign
  | expression noKeyword noHeading readTree readSign =>
      obtain ⟨normal, isValue⟩ := normal_expression leading plain _ _ _ readTree
      obtain ⟨needsSign, nonempty, -⟩ := closes_of_isValue isValue
      refine normalStatement_terminated normal needsSign nonempty (Form.isUnknown_of_isValue isValue) ?_ readSign
      intro isElse
      have word := opensAs_expression readTree (by rw [isElse]; decide)
      rw [word, isElse] at noKeyword
      exact absurd noKeyword (by decide)

end Statement

theorem normal_statementWithin (nestings : Nat) : Gives (statementWithin nestings) NormalStatement := by
  induction nestings with
  | zero => exact .fail _
  | succ nestings ih => exact normal_statementStep ih

theorem normal_statement : Gives statement NormalStatement :=
  .skip fun _ => normal_statementWithin _

/-! ### Units -/

theorem normal_unitStatements (bound : Nat) :
    Gives (unitStatements bound) fun parts => NormalStatements parts.1 ∧ parts.2.IsPlain := by
  induction bound with
  | zero => exact .fail _
  | succ bound ih =>
      refine .skip fun saved => .bind gives_gap fun eof plain => .skip fun text => ?_
      split
      · exact .pure ⟨nofun, plain⟩
      · refine .skip fun _ => .bind normal_statement fun first isFirst => .bind ih fun parts ⟨areRest, restPlain⟩ => ?_
        exact .pure ⟨List.forall_mem_cons.2 ⟨isFirst, areRest⟩, restPlain⟩

theorem normal_unit (path : Path) : Gives (unit path) fun tree => tree.IsNormal ∧ tree.leading.isEmpty = true := by
  refine .skip fun text => .bind (normal_unitStatements _) fun parts known => .pure ⟨?_, rfl⟩
  obtain ⟨statements, plain⟩ := known
  exact Tree.isNormal_spaced Space.isPlain_empty (Form.isNormal_compilationUnit statements plain) statements.normal

end Parser

/-- Every source is parsed as a tree in normal form, without space before it. -/
theorem isNormal_of_parse
    {source : Text}
    {path : Path}
    {tree : Tree}
    (parsed : parse source path = .ok tree) :
    tree.IsNormal ∧ tree.leading.isEmpty = true := by
  obtain ⟨rest, read⟩ := unit_of_parse parsed
  exact Parser.normal_unit path source tree rest read

end Java
end Lossless
