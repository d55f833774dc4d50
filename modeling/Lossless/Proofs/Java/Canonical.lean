import Lossless.Java.Grammar.Statement
import Lossless.Java.Pieces
import Lossless.Proofs.Gap.Closed

/-!
# Canonical trees

A tree is canonical when it looks as if it had been read from a text. Three things make up the condition on
a node. Its children are of the kinds that the grammar puts there, an operand binding at least as tightly as
its operator asks for. Its spaces are gaps. And a space is empty where a node starts with a child, and not
empty where the tokens beside it would run into one another.

Kinds and tokens do not depend on the spaces, so whatever changes only spaces keeps the first condition.
-/

namespace Lossless
namespace Java

/-! ## Tokens -/

/-- A name as it is read. -/
def isName : Text -> Bool
  | [] => false
  | first :: rest => Text.isIdentifierStart first && rest.all Text.isIdentifierPart

/-- A word that is a literal. -/
def isLiteralWord (name : Text) : Bool :=
  name = "true".toList || name = "false".toList || name = "null".toList

/-- A number as it is read. -/
def isNumber : Text -> Bool
  | [] => false
  | first :: rest => Parser.isNumberStart (first :: rest) && rest.all isNumberPart

/-- A literal between quotes. -/
def isQuoted : Text -> Bool
  | [] => false
  | first :: rest =>
      (first = '"' || first = '\'') && splitQuoted? first false rest = some (rest, [])

/-- A word that a statement of a kind of its own starts with, or a part of one. -/
def isStatementWord (word : Text) : Bool :=
  word = "if".toList || word = "return".toList || word = "else".toList

/-- A word with the nonempty gap before it. -/
def IsSpacedWord (pair : Text × Text) : Prop :=
  isName pair.2 = true ∧
    ∃ space : Space, space.IsGap ∧ space.isEmpty = false ∧ space.render .slash = pair.1

/-- Two or more words with gaps between them. -/
def AreWords (text : Text) : Prop :=
  ∃ first more, isName first = true ∧ more ≠ [] ∧ (forall pair, pair ∈ more -> IsSpacedWord pair) ∧
    text = first ++ writtenWords more

/-! ## Kinds -/

namespace Form

def isParentheses : Form α -> Bool
  | parentheses _ => true
  | _ => false

def isIdentifier : Form α -> Bool
  | identifier .. => true
  | _ => false

def isOtherwise : Form α -> Bool
  | otherwise _ => true
  | _ => false

def isBlock : Form α -> Bool
  | block .. => true
  | _ => false

def isEmpty : Form α -> Bool
  | empty => true
  | _ => false

/-- A whole source. -/
def isUnit : Form α -> Bool
  | compilationUnit .. => true
  | _ => false

/-- A name, or words that are kept as they are written. -/
def isWords : Form α -> Bool
  | identifier .. | unknown _ => true
  | _ => false

/-- Can stand beside an operator. -/
def isOperand : Form α -> Bool
  | identifier name _ => !isLiteralWord name
  | binary .. | literal .. | fieldAccess .. | call .. | parentheses _ | collection .. => true
  | _ => false

/-- How tightly an operand binds; tighter than any operator when it is no operation. -/
def tightness : Form α -> Nat
  | binary _ operator _ _ => operator.element.precedence
  | _ => Parser.operatorLevels

/-- Can stand before a dot. -/
def isChain (form : Form α) : Bool :=
  form.isOperand && Parser.operatorLevels ≤ form.tightness

/-- Can stand where an expression is read. -/
def isValue : Form α -> Bool
  | assignment .. => true
  | form => form.isOperand

/-- A number, whose digits a dot would go on. -/
def isNumeral : Form α -> Bool
  | literal source _ => isNumber source
  | _ => false

theorem isValue_of_isOperand
    {form : Form α}
    (isOperand : form.isOperand = true) :
    form.isValue = true := by
  cases form <;> first | rfl | exact isOperand

theorem isOperand_of_isChain
    {form : Form α}
    (isChain : form.isChain = true) :
    form.isOperand = true := by
  rw [Form.isChain, Bool.and_eq_true] at isChain
  exact isChain.1

theorem isValue_of_isChain
    {form : Form α}
    (isChain : form.isChain = true) :
    form.isValue = true :=
  isValue_of_isOperand (isOperand_of_isChain isChain)

/-- The only operands that cannot stand before a dot are operations. -/
theorem exists_of_isOperand
    {form : Form α}
    (isOperand : form.isOperand = true)
    (isChain : form.isChain = false) :
    ∃ left operator right typeTag, form = .binary left operator right typeTag := by
  have loose : decide (Parser.operatorLevels ≤ form.tightness) = false := by
    rw [Form.isChain, isOperand, Bool.true_and] at isChain
    exact isChain
  cases form <;> first | exact ⟨_, _, _, _, rfl⟩ | cases loose

theorem exists_of_isBlock
    {form : Form α}
    (isBlock : form.isBlock = true) :
    ∃ statements closing, form = .block statements closing := by
  cases form <;> first | exact ⟨_, _, rfl⟩ | cases isBlock

theorem eq_empty_of_isEmpty
    {form : Form α}
    (isEmpty : form.isEmpty = true) :
    form = .empty := by
  cases form <;> first | rfl | cases isEmpty

theorem isEmpty_of_isValue
    {form : Form α}
    (isValue : form.isValue = true) :
    form.isEmpty = false := by
  cases form <;> first | rfl | cases isValue

theorem isEmpty_of_isWords
    {form : Form α}
    (isWords : form.isWords = true) :
    form.isEmpty = false := by
  cases form <;> first | rfl | cases isWords

/-- A value is neither a block nor an alternative. -/
theorem isBlock_of_isValue
    {form : Form α}
    (isValue : form.isValue = true) :
    form.isBlock = false ∧ form.isOtherwise = false := by
  cases form <;> first | exact ⟨rfl, rfl⟩ | cases isValue

theorem isBlock_of_isWords
    {form : Form α}
    (isWords : form.isWords = true) :
    form.isBlock = false ∧ form.isOtherwise = false := by
  cases form <;> first | exact ⟨rfl, rfl⟩ | cases isWords

theorem isValue_of_isParentheses
    {form : Form α}
    (isParentheses : form.isParentheses = true) :
    form.isValue = true := by
  cases form <;> first | rfl | cases isParentheses

theorem isWords_of_isIdentifier
    {form : Form α}
    (isIdentifier : form.isIdentifier = true) :
    form.isWords = true := by
  cases form <;> first | rfl | cases isIdentifier

end Form

namespace Tree

/-- The first token of a tree; of kept words the first one. -/
def firstToken (tree : Tree) : Text :=
  recurse
    (fun _ form =>
      match form with
      | .block .. => ['\x7b']
      | .conditional .. => "if".toList
      | .otherwise _ => "else".toList
      | .returns _ => "return".toList
      | .assignment target _ _ => target.2
      | .binary left _ _ _ => left.2
      | .identifier name _ => name
      | .literal source _ => source
      | .fieldAccess target _ _ => target.2
      | .call (some receiver) _ _ _ => receiver.element.2
      | .call none name _ _ => name.2
      | .declaration (some returnType) _ _ _ => returnType.2
      | .declaration none name _ _ => name.2
      | .parentheses _ => ['(']
      | .collection kind _ _ => kind.delimiters.1
      | .unknown text => text.takeWhile Text.isIdentifierPart
      | .compilationUnit .. | .empty => [])
    tree

/-- The characters of an identifier at the start of a tree. -/
def firstWord (tree : Tree) : Text :=
  tree.firstToken.takeWhile Text.isIdentifierPart

/-- A word that comes right before the tree would run into it. -/
def startsWord (tree : Tree) : Bool :=
  !tree.firstWord.isEmpty

/-- The last part of a tree is a conditional without an alternative, which a following `else` would go to. -/
def endsOpen (tree : Tree) : Bool :=
  recurse
    (fun _ form =>
      match form with
      | .conditional _ _ none => true
      | .conditional _ _ (some alternative) => alternative.2
      | .otherwise body => body.element.2
      | _ => false)
    tree

/-- Can be read as a statement. -/
def isStatement (tree : Tree) : Bool :=
  match tree.form with
  | .block .. | .conditional .. | .returns _ | .declaration .. | .empty => true
  | form => form.isValue && !isStatementWord tree.firstWord

end Tree

/-! ## Kinds of the children -/

/-- A statement of a list or a body, without markers. -/
def FitsStatement (padded : RightPadded Tree) : Prop :=
  padded.element.isStatement = true ∧ padded.markers.toList = []

/-- No statement that is left open has an `else` behind it. -/
def noneCaptured : List (RightPadded Tree) -> Bool
  | first :: second :: rest =>
      (!first.element.endsOpen || second.element.firstWord != "else".toList) &&
        noneCaptured (second :: rest)
  | _ => true

/-- Statements one after the other. -/
def FitStatements (statements : List (RightPadded Tree)) : Prop :=
  (forall padded, padded ∈ statements -> FitsStatement padded) ∧ noneCaptured statements = true

/-- No marker, or one trailing comma. -/
def IsTrailing (markers : Markers Space) : Prop :=
  markers.toList = [] ∨ ∃ marker suffix, markers.toList = [marker] ∧ marker.fact = .trailingComma suffix

/-- Elements of a kind with commas between them; only the last one can have a comma after it. -/
def FitElements (test : Form Tree -> Bool) : List (RightPadded Tree) -> Prop
  | [] => False
  | [last] => test last.element.form = true ∧ IsTrailing last.markers
  | padded :: rest =>
      test padded.element.form = true ∧ padded.markers.toList = [] ∧ FitElements test rest

/-- The one empty node of a list without elements. -/
def IsNone : List (RightPadded Tree) -> Prop
  | [only] => only.element.form.isEmpty = true ∧ only.markers.toList = []
  | _ => False

/-- A list with elements of a kind is not one without elements. -/
theorem not_isNone_of_fitElements
    {test : Form Tree -> Bool}
    {padded : List (RightPadded Tree)}
    (notEmpty : forall form, test form = true -> form.isEmpty = false)
    (fits : FitElements test padded) :
    ¬IsNone padded := by
  intro none
  match padded, fits, none with
  | [_], fits, none => cases (notEmpty _ fits.1).symm.trans none.1

/-- A delimited list with elements of a kind, or without elements. -/
def FitsContainer
    (test : Form Tree -> Bool)
    (list : Container Tree) : Prop :=
  list.markers.toList = [] ∧ (IsNone list.padded ∨ FitElements test list.padded)

namespace Form

/-- The children are of the kinds that the grammar puts there, and the tokens can be read. -/
def Fits : Form Tree -> Prop
  | compilationUnit dialect _ statements _ => dialect = .java ∧ FitStatements statements
  | block statements _ => FitStatements statements
  | conditional condition consequence alternative =>
      condition.form.isParentheses = true ∧ FitsStatement consequence ∧
        forall other, alternative = some other ->
          other.form.isOtherwise = true ∧ consequence.element.endsOpen = false
  | otherwise body => FitsStatement body
  | returns value => forall present, value = some present -> present.form.isValue = true
  | assignment target value typeTag =>
      target.form.isOperand = true ∧ value.element.form.isValue = true ∧
        value.markers.toList = [] ∧ typeTag = none
  | binary left operator right typeTag =>
      (left.form.isOperand = true ∧ operator.element.precedence ≤ left.form.tightness) ∧
        (right.form.isOperand = true ∧ operator.element.precedence < right.form.tightness) ∧
          operator.markers.toList = [] ∧ typeTag = none
  | identifier name typeTag => isName name = true ∧ typeTag = none
  | literal source typeTag =>
      (isLiteralWord source || isNumber source || isQuoted source) = true ∧ typeTag = none
  | fieldAccess target name typeTag =>
      target.form.isChain = true ∧ name.element.form.isIdentifier = true ∧
        name.markers.toList = [] ∧ typeTag = none
  | call receiver name arguments typeTag =>
      (match receiver with
        | some padded => padded.element.form.isChain = true ∧ padded.markers.toList = []
        | none => isLiteralWord name.form.text = false) ∧
      name.form.isIdentifier = true ∧ FitsContainer isValue arguments ∧ typeTag = none
  | declaration returnType name parameters body =>
      (∃ present, returnType = some present ∧ present.form.isWords = true ∧
        (isStatementWord present.firstWord = true -> present.firstWord = "else".toList)) ∧
      name.form.isIdentifier = true ∧ FitsContainer isWords parameters ∧
        forall present, body = some present -> present.form.isBlock = true
  | parentheses inner => inner.element.form.isValue = true ∧ inner.markers.toList = []
  | collection kind elements typeTag =>
      kind = .list ∧ FitsContainer isValue elements ∧ typeTag = none
  | empty => True
  | unknown text => AreWords text

end Form

namespace Form

theorem isUnit_of_isValue
    {form : Form α}
    (isValue : form.isValue = true) :
    form.isUnit = false := by
  cases form <;> first | rfl | cases isValue

theorem isUnit_of_isWords
    {form : Form α}
    (isWords : form.isWords = true) :
    form.isUnit = false := by
  cases form <;> first | rfl | cases isWords

end Form

theorem isUnit_of_isStatement
    {tree : Tree}
    (isStatement : tree.isStatement = true) :
    tree.form.isUnit = false := by
  unfold Tree.isStatement at isStatement
  cases form : tree.form with
  | compilationUnit => simp [form, Form.isValue, Form.isOperand] at isStatement
  | _ => rfl

/-- What holds of the forms that pass a test holds of the elements. -/
theorem forall_of_fitElements
    {test : Form Tree -> Bool}
    {holds : Form Tree -> Prop}
    (implies : forall form, test form = true -> holds form)
    {padded : List (RightPadded Tree)}
    (fits : FitElements test padded) :
    forall child, child ∈ RightPadded.elements padded -> holds child.form := by
  induction padded with
  | nil => exact fits.elim
  | cons first rest ih =>
      have atFirst : test first.element.form = true := by
        cases rest with
        | nil => exact fits.1
        | cons => exact fits.1
      refine List.forall_mem_cons.2 ⟨implies _ atFirst, ?_⟩
      cases rest with
      | nil => simp
      | cons second rest => exact ih fits.2.2

theorem forall_of_fitsContainer
    {test : Form Tree -> Bool}
    {holds : Form Tree -> Prop}
    (implies : forall form, test form = true -> holds form)
    (atEmpty : holds .empty)
    {list : Container Tree}
    (fits : FitsContainer test list) :
    forall child, child ∈ list.elements -> holds child.form := by
  obtain ⟨before, padded, markers⟩ := list
  rcases fits.2 with none | elements
  · match padded, none with
    | [only], none =>
        have isEmpty : only.element.form = .empty := Form.eq_empty_of_isEmpty none.1
        refine List.forall_mem_singleton.2 ?_
        rw [isEmpty]
        exact atEmpty
  · exact forall_of_fitElements implies elements

/-- No whole source stands below a node. -/
theorem Form.Fits.isUnit_child
    {form : Form Tree}
    (fits : form.Fits) :
    forall child, child ∈ form.children -> child.form.isUnit = false := by
  have statements {list : List (RightPadded Tree)} (fit : FitStatements list) :
      forall child, child ∈ RightPadded.elements list -> child.form.isUnit = false := by
    intro child member
    obtain ⟨padded, present, rfl⟩ := List.mem_map.1 member
    exact isUnit_of_isStatement (fit.1 padded present).1
  cases form with
  | compilationUnit => exact statements fits.2
  | block => exact statements fits
  | conditional condition consequence alternative =>
      simp only [Form.children, List.forall_mem_cons]
      refine ⟨isUnit_of_isValue (isValue_of_isParentheses fits.1), isUnit_of_isStatement fits.2.1.1, ?_⟩
      intro other member
      have isOtherwise := (fits.2.2 other (Option.mem_toList.1 member)).1
      cases atOther : other.form <;> simp_all [Form.isOtherwise, Form.isUnit]
  | otherwise body => exact List.forall_mem_singleton.2 (isUnit_of_isStatement fits.1)
  | returns value =>
      exact fun present member => isUnit_of_isValue (fits present (Option.mem_toList.1 member))
  | assignment target value typeTag =>
      simp only [Form.children, List.forall_mem_cons]
      exact ⟨isUnit_of_isValue (isValue_of_isOperand fits.1), isUnit_of_isValue fits.2.1, by simp⟩
  | binary left operator right typeTag =>
      simp only [Form.children, List.forall_mem_cons]
      exact ⟨isUnit_of_isValue (isValue_of_isOperand fits.1.1),
        isUnit_of_isValue (isValue_of_isOperand fits.2.1.1), by simp⟩
  | fieldAccess target name typeTag =>
      simp only [Form.children, List.forall_mem_cons]
      exact ⟨isUnit_of_isValue (isValue_of_isChain fits.1),
        isUnit_of_isWords (isWords_of_isIdentifier fits.2.1), by simp⟩
  | call receiver name list typeTag =>
      have atName := isUnit_of_isWords (isWords_of_isIdentifier fits.2.1)
      have atList := forall_of_fitsContainer (fun _ => isUnit_of_isValue) rfl fits.2.2.1
      cases receiver with
      | none => exact List.forall_mem_cons.2 ⟨atName, atList⟩
      | some padded =>
          exact List.forall_mem_cons.2 ⟨isUnit_of_isValue (isValue_of_isChain fits.1.1),
            List.forall_mem_cons.2 ⟨atName, atList⟩⟩
  | declaration returnType name list body =>
      obtain ⟨⟨present, rfl, isWords, -⟩, isName, fitsList, isBlock⟩ := fits
      have atList := forall_of_fitsContainer (fun _ => isUnit_of_isWords) rfl fitsList
      have atName := isUnit_of_isWords (isWords_of_isIdentifier isName)
      refine List.forall_mem_append.2 ⟨List.forall_mem_cons.2 ⟨isUnit_of_isWords isWords,
        List.forall_mem_cons.2 ⟨atName, atList⟩⟩, fun present member => ?_⟩
      have atBody := isBlock present (Option.mem_toList.1 member)
      obtain ⟨_, _, form⟩ := exists_of_isBlock atBody
      rw [form]
      rfl
  | parentheses inner => exact List.forall_mem_singleton.2 (isUnit_of_isValue fits.1)
  | collection kind list typeTag => exact forall_of_fitsContainer (fun _ => isUnit_of_isValue) rfl fits.2.1
  | identifier => simp [Form.children]
  | literal => simp [Form.children]
  | empty => simp [Form.children]
  | unknown => simp [Form.children]

/-! ## Spaces -/

/-- The spaces beside the elements of a list. -/
def elementGaps (padded : List (RightPadded α)) : List Space :=
  padded.flatMap fun padded => padded.after :: padded.markers.findAll Fact.trailingComma?

theorem findAll_of_comma
    {markers : Markers Space}
    {marker : Marker Space}
    {suffix : Space}
    (only : markers.toList = [marker])
    (isComma : marker.fact = .trailingComma suffix) :
    markers.findAll Fact.trailingComma? = [suffix] := by
  simp [Markers.findAll, only, isComma, Fact.trailingComma?]

/-- A statement that ends by itself has no space after it. -/
def Closes (padded : RightPadded Tree) : Prop :=
  padded.element.form.isSelfTerminated = true ∨ padded.element.form.isEmpty = true ->
    padded.after.isEmpty = true

/-- The empty node of a list without elements has no space after it. -/
def ClosesList (list : Container Tree) : Prop :=
  IsNone list.padded -> forall padded, padded ∈ list.padded -> padded.after.isEmpty = true

namespace Form

/-- The spaces beside the parts of a node, but for the one at the end of a unit. -/
def gaps : Form α -> List Space
  | compilationUnit _ _ statements _ => statements.map fun padded => padded.after
  | block statements closing => closing :: statements.map fun padded => padded.after
  | conditional _ consequence _ => [consequence.after]
  | otherwise body => [body.after]
  | assignment _ value _ => [value.before]
  | binary _ operator _ _ => [operator.before]
  | fieldAccess _ name _ => [name.before]
  | call receiver _ arguments _ =>
      (receiver.map fun padded => padded.after).toList ++ arguments.before :: elementGaps arguments.padded
  | declaration _ _ parameters _ => parameters.before :: elementGaps parameters.padded
  | parentheses inner => [inner.after]
  | collection _ elements _ => elements.before :: elementGaps elements.padded
  | returns _ | identifier .. | literal .. | empty | unknown _ => []

/-- The space at the end of a unit. -/
def eof? : Form α -> Option Space
  | compilationUnit _ _ _ eof => some eof
  | _ => none

/-- A space is empty where the tokens say where it would be, and not empty where it separates two. -/
def Separates : Form Tree -> Prop
  | compilationUnit _ _ statements _ => forall padded, padded ∈ statements -> Closes padded
  | block statements _ => forall padded, padded ∈ statements -> Closes padded
  | conditional _ consequence _ => Closes consequence
  | otherwise body =>
      Closes body ∧ (body.element.startsWord = true -> body.element.leading.isEmpty = false)
  | returns value =>
      forall present, value = some present ->
        present.startsWord = true -> present.leading.isEmpty = false
  | assignment target _ _ => target.leading.isEmpty = true
  | binary left operator right _ =>
      left.leading.isEmpty = true ∧
        (operator.element = .division -> right.leading.startsComment = false)
  | fieldAccess target name _ =>
      target.leading.isEmpty = true ∧ (target.form.isNumeral = true -> name.before.isEmpty = false)
  | call (some receiver) _ arguments _ =>
      receiver.element.leading.isEmpty = true ∧ ClosesList arguments ∧
        (receiver.element.form.isNumeral = true -> receiver.after.isEmpty = false)
  | call none name arguments _ => name.leading.isEmpty = true ∧ ClosesList arguments
  | declaration returnType name parameters _ =>
      (forall present, returnType = some present -> present.leading.isEmpty = true) ∧
        name.leading.isEmpty = false ∧ ClosesList parameters
  | collection _ elements _ => elements.before.isEmpty = true ∧ ClosesList elements
  | parentheses _ | identifier .. | literal .. | empty | unknown _ => True

/-- The condition on the parts of one node of a canonical tree. -/
structure IsCanonical (form : Form Tree) : Prop where
  fits : form.Fits
  separates : form.Separates
  gaps : forall space, space ∈ form.gaps -> space.IsGap
  eof : forall space, form.eof? = some space -> space.IsGapTo true
  leading : forall child, child ∈ form.children -> child.leading.IsGap
  unmarked : forall child, child ∈ form.children -> child.markers.toList = []

end Form

namespace Tree

@[simp] theorem form_node
    (head : Head)
    (form : Form Tree) :
    (node head form).form = form := rfl

@[simp] theorem leading_node
    (head : Head)
    (form : Form Tree) :
    (node head form).leading = head.leading := rfl

@[simp] theorem form_spaced
    (leading : Space)
    (form : Form Tree) :
    (spaced leading form).form = form := rfl

@[simp] theorem leading_spaced
    (leading : Space)
    (form : Form Tree) :
    (spaced leading form).leading = leading := rfl

@[simp] theorem markers_spaced
    (leading : Space)
    (form : Form Tree) :
    (spaced leading form).markers = .empty := rfl

@[simp] theorem form_build (form : Form Tree) : (build form).form = form := rfl

@[simp] theorem leading_build (form : Form Tree) : (build form).leading = .empty := rfl

/-- Every node looks as if it had been read from a text. -/
def IsCanonical (tree : Tree) : Prop :=
  forall node, node ∈ tree.nodes -> node.form.IsCanonical

theorem isCanonical_iff (tree : Tree) :
    tree.IsCanonical ↔
      tree.form.IsCanonical ∧ forall child, child ∈ tree.form.children -> child.IsCanonical := by
  obtain ⟨head, form⟩ := tree
  unfold IsCanonical
  rw [nodes_node]
  simp only [List.mem_cons, List.mem_flatMap, forall_eq_or_imp, form_node]
  constructor
  · rintro ⟨atRoot, below⟩
    exact ⟨atRoot, fun child member node inside => below node ⟨child, member, inside⟩⟩
  · rintro ⟨atRoot, below⟩
    refine ⟨atRoot, ?_⟩
    rintro node ⟨child, member, inside⟩
    exact below child member node inside

/-- Only the form of a tree counts. -/
theorem isCanonical_congr
    {left right : Tree}
    (same : left.form = right.form) :
    left.IsCanonical ↔ right.IsCanonical := by
  rw [isCanonical_iff, isCanonical_iff, same]

@[simp] theorem isCanonical_withLeading
    (tree : Tree)
    (leading : Space) :
    (tree.withLeading leading).IsCanonical ↔ tree.IsCanonical :=
  isCanonical_congr (form_revise tree leading tree.markers tree.form)

/-- A canonical tree that can be a child in a canonical tree. -/
structure IsPart (tree : Tree) : Prop where
  leading : tree.leading.IsGap
  unmarked : tree.markers.toList = []
  canonical : tree.IsCanonical

/-- A tree is canonical when its form is, all children being parts. -/
theorem isCanonical_of_parts
    {tree : Tree}
    (fits : tree.form.Fits)
    (separates : tree.form.Separates)
    (gaps : forall space, space ∈ tree.form.gaps -> space.IsGap)
    (eof : forall space, tree.form.eof? = some space -> space.IsGapTo true)
    (parts : forall child, child ∈ tree.form.children -> child.IsPart) :
    tree.IsCanonical := by
  refine (isCanonical_iff tree).2 ⟨⟨fits, separates, gaps, eof, ?_, ?_⟩, ?_⟩
  · exact fun child member => (parts child member).leading
  · exact fun child member => (parts child member).unmarked
  · exact fun child member => (parts child member).canonical

/-- The children of a canonical tree are parts. -/
theorem IsCanonical.part
    {tree child : Tree}
    (canonical : tree.IsCanonical)
    (member : child ∈ tree.form.children) :
    child.IsPart := by
  obtain ⟨atRoot, below⟩ := (isCanonical_iff tree).1 canonical
  exact ⟨atRoot.leading child member, atRoot.unmarked child member, below child member⟩

/-- The condition on the root of a canonical tree. -/
theorem IsCanonical.root
    {tree : Tree}
    (canonical : tree.IsCanonical) :
    tree.form.IsCanonical :=
  ((isCanonical_iff tree).1 canonical).1

end Tree
end Java
end Lossless
