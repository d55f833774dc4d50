import Lossless.Proofs.Java.FirstWord
import Lossless.Proofs.Java.Form
import Lossless.Proofs.Java.Sorted
import Lossless.Proofs.Java.Sound.Expression

/-!
# Normal form

What the grammar makes sure of at every node, whatever the source looks like. Space stands as far out as it can and is
never behind a statement that ends by itself; lists are never empty; nothing is marked but the comma behind the last
element of a list; operators nest as they bind; and no statement but a declaration starts with `else`.

A tree is in normal form when each of its nodes is, with a head without markers.

Every text that is read as an expression is read as one in normal form. Only the loop over operators needs to know what
is left to read: the operator behind an operand binds no tighter than the operand, so that it takes over the operand as a
whole.
-/

namespace Lossless

/-! ## Spaces without markers -/

/-- No comment of the space is marked. -/
def Space.IsPlain (space : Space) : Prop :=
  forall comment, comment ∈ space.comments -> comment.markers.toList = []

namespace Space

theorem isPlain_empty : Space.empty.IsPlain := nofun

/-- No comment that is split off is marked. -/
theorem isPlain_of_mem_splitGap (text : Text) :
    forall comment, comment ∈ (splitGap .slash text).2 -> comment.markers.toList = [] := by
  have all : (forall text : Text, forall comment, comment ∈ (splitGap .slash text).2 -> comment.markers.toList = []) ∧
      (forall text, forall comment, comment ∈ (splitLine .slash text).2.2 -> comment.markers.toList = []) ∧
      forall text, forall comment, comment ∈ (splitBlock .slash text).2.2 -> comment.markers.toList = [] := by
    apply split_induction
    case atEnd => exact nofun
    case lineOpens => exact fun body ih => List.forall_mem_cons.2 ⟨rfl, ih⟩
    case blockOpens => exact fun body ih => List.forall_mem_cons.2 ⟨rfl, ih⟩
    case step =>
      intro first rest plain ih
      rwa [splitGap_cons plain]
    case lineAtEnd => exact nofun
    case lineBreaks =>
      intro first rest breaks ih
      rwa [splitLine_break breaks]
    case lineStep =>
      intro first rest noFeed noReturn ih
      rwa [splitLine_cons noFeed noReturn]
    case blockAtEnd => exact nofun
    case blockCloses => exact fun rest ih => ih
    case blockStep =>
      intro first rest inside ih
      rwa [splitBlock_cons inside]
  exact all.1 text

theorem isPlain_format (text : Text) : (Space.format text).IsPlain := by
  intro comment member
  rw [format, formatWith, comments_build] at member
  exact isPlain_of_mem_splitGap text comment member

end Space

namespace Java

/-! ## Parts of forms -/

namespace Form

/-- The child that is printed first, on the kinds that start with a child. -/
def opening? : Form α -> Option α
  | assignment target _ _ => some target
  | binary left _ _ _ => some left
  | fieldAccess target _ _ => some target
  | call (some receiver) _ _ _ => some receiver.element
  | call none name _ _ => some name
  | declaration (some returnType) _ _ _ => some returnType
  | declaration none name _ _ => some name
  | _ => none

/-- The statements of a list, or the one that a conditional or an alternative leads to. -/
def paddedStatements : Form α -> List (RightPadded α)
  | compilationUnit _ _ statements _ | block statements _ => statements
  | conditional _ consequence _ => [consequence]
  | otherwise body => [body]
  | _ => []

/-- The list of a call, a declaration or a collection. -/
def container? : Form α -> Option (Container α)
  | call _ _ arguments _ => some arguments
  | declaration _ _ parameters _ => some parameters
  | collection _ elements _ => some elements
  | _ => none

/-- The marker sets beside operands, operators, receivers and what stands in parentheses. -/
def operandMarkers : Form α -> List (Markers Space)
  | assignment _ value _ => [value.markers]
  | binary _ operator _ _ => [operator.markers]
  | fieldAccess _ name _ => [name.markers]
  | call (some receiver) _ _ _ => [receiver.markers]
  | parentheses inner => [inner.markers]
  | _ => []

def isDeclaration : Form α -> Bool
  | declaration .. => true
  | _ => false

/--
An operand of an operator is no assignment and binds at least as tightly as the operator, the right one more tightly;
the target of an assignment is no assignment.
-/
def NestsOperands : Form Tree -> Prop
  | assignment target _ _ => target.form.isOperand = true
  | binary left operator right _ =>
      (left.form.isOperand = true ∧ operator.element.precedence ≤ left.form.tightness) ∧
        right.form.isOperand = true ∧ operator.element.precedence < right.form.tightness
  | _ => True

theorem isUnknown_of_isValue
    {form : Form α}
    (isValue : form.isValue = true) :
    form.isUnknown = false := by
  cases form <;> first | rfl | cases isValue

theorem isUnknown_of_isBlock
    {form : Form α}
    (isBlock : form.isBlock = true) :
    form.isUnknown = false := by
  cases form <;> first | rfl | cases isBlock

theorem isUnknown_of_isDeclaration
    {form : Form α}
    (isDeclaration : form.isDeclaration = true) :
    form.isUnknown = false := by
  cases form <;> first | rfl | cases isDeclaration

theorem isEmpty_of_isDeclaration
    {form : Form α}
    (isDeclaration : form.isDeclaration = true) :
    form.isEmpty = false := by
  cases form <;> first | rfl | cases isDeclaration

end Form

/-- A statement that stands in a list or that a conditional leads to. -/
structure IsNormalStatement (padded : RightPadded Tree) : Prop where
  closes : Closes padded
  unmarked : padded.markers.toList = []
  isUnknown : padded.element.form.isUnknown = false
  /-- An `else` opens nothing but the heading of a declaration. -/
  orphan : padded.element.firstWord = "else".toList -> padded.element.form.isDeclaration = true

/-- What the grammar makes sure of at a node. -/
structure Form.IsNormal (form : Form Tree) : Prop where
  /-- The space before a node that starts with a child is that of the node. -/
  opening : forall first, form.opening? = some first -> first.leading.isEmpty = true
  statements : forall padded, padded ∈ form.paddedStatements -> IsNormalStatement padded
  /-- A list has one empty element or some that are not empty, and at most a comma behind the last one is marked. -/
  elements : forall list, form.container? = some list -> FitsContainer (fun element => !element.isEmpty) list
  operands : form.NestsOperands
  operandMarkers : forall markers, markers ∈ form.operandMarkers -> markers.toList = []
  spaces : forall space, space ∈ form.allSpaces (fun _ => []) -> space.IsPlain

/-! ## Trees in normal form -/

namespace Tree

/-- A node in normal form with a head without markers. -/
structure IsNormalNode (node : Tree) : Prop where
  leading : node.leading.IsPlain
  unmarked : node.markers.toList = []
  form : node.form.IsNormal

/-- Every node is in normal form. -/
def IsNormal (tree : Tree) : Prop :=
  forall node, node ∈ tree.nodes -> node.IsNormalNode

variable {tree : Tree} {leading : Space} {form : Form Tree}

theorem isNormal_iff (tree : Tree) :
    tree.IsNormal ↔ tree.IsNormalNode ∧ forall child, child ∈ tree.form.children -> child.IsNormal := by
  constructor
  · intro normal
    exact ⟨normal tree (mem_nodes_self tree),
      fun child isChild node inside => normal node (mem_nodes_of_mem_children isChild inside)⟩
  · rintro ⟨atRoot, below⟩ node member
    rcases eq_or_exists_of_mem_nodes member with rfl | ⟨child, isChild, inside⟩
    · exact atRoot
    · exact below child isChild node inside

theorem IsNormal.root (normal : tree.IsNormal) : tree.IsNormalNode := normal tree (mem_nodes_self tree)

/-- A new node in normal form, with children that are. -/
theorem isNormal_spaced
    (plain : leading.IsPlain)
    (normal : form.IsNormal)
    (children : forall child, child ∈ form.children -> child.IsNormal) :
    (spaced leading form).IsNormal :=
  (isNormal_iff _).2 ⟨⟨plain, rfl, normal⟩, children⟩

/-- A tree that gives its leading space away stays in normal form. -/
theorem IsNormal.withLeading_empty (normal : tree.IsNormal) : (tree.withLeading .empty).IsNormal := by
  obtain ⟨⟨-, unmarked, atRoot⟩, below⟩ := (isNormal_iff tree).1 normal
  rw [isNormal_iff, form_withLeading]
  refine ⟨⟨?_, ?_, ?_⟩, below⟩
  · rw [leading_withLeading]
    exact Space.isPlain_empty
  · rw [withLeading, markers_revise]
    exact unmarked
  · rw [form_withLeading]
    exact atRoot

end Tree

/-! ## Expressions -/

open Lossless.Parser
open Java.Parser

variable {leading : Space}

/-! ## Leaves -/

/-- Has no parts. -/
def Form.isLeaf : Form α -> Bool
  | identifier .. | literal .. | empty | unknown _ => true
  | _ => false

theorem Form.isNormal_of_isLeaf
    {form : Form Tree}
    (isLeaf : form.isLeaf = true) :
    form.IsNormal := by
  cases form <;> cases isLeaf <;> constructor <;> first | trivial | exact nofun

theorem isNormal_leaf
    {form : Form Tree}
    (isLeaf : form.isLeaf = true)
    (plain : leading.IsPlain) :
    (Tree.spaced leading form).IsNormal := by
  refine Tree.isNormal_spaced plain (Form.isNormal_of_isLeaf isLeaf) ?_
  cases form <;> cases isLeaf <;> exact nofun

/-! ## Lists -/

theorem FitElements.mono
    {test weaker : Form Tree -> Bool}
    (implies : forall form, test form = true -> weaker form = true)
    {padded : List (RightPadded Tree)}
    (fits : FitElements test padded) :
    FitElements weaker padded := by
  induction padded with
  | nil => exact fits
  | cons first rest ih =>
      cases rest with
      | nil => exact ⟨implies _ fits.1, fits.2⟩
      | cons second rest => exact ⟨implies _ fits.1, fits.2.1, ih fits.2.2⟩

theorem FitsContainer.mono
    {test weaker : Form Tree -> Bool}
    (implies : forall form, test form = true -> weaker form = true)
    {list : Container Tree}
    (fits : FitsContainer test list) :
    FitsContainer weaker list :=
  ⟨fits.1, fits.2.imp_right (FitElements.mono implies)⟩

/-- Elements of a kind, in normal form, and the spaces between them. -/
structure NormalElements
    (test : Form Tree -> Bool)
    (padded : List (RightPadded Tree)) : Prop where
  fits : FitElements test padded
  spaces : forall space, space ∈ padded.flatMap (·.allSpaces fun _ => []) -> space.IsPlain
  parts : forall child, child ∈ RightPadded.elements padded -> child.IsNormal

namespace NormalElements

variable {test : Form Tree -> Bool} {first : Tree} {after : Space}

/-- The last element, with or without a comma after it. -/
theorem last
    {markers : Markers Space}
    (kind : test first.form = true)
    (normal : first.IsNormal)
    (plain : after.IsPlain)
    (trailing : IsTrailing markers)
    (suffixes : forall suffix, suffix ∈ markers.suffixes -> suffix.IsPlain) :
    NormalElements test [⟨first, after, markers⟩] where
  fits := ⟨kind, trailing⟩
  spaces := by simpa [RightPadded.allSpaces] using ⟨plain, suffixes⟩
  parts := List.forall_mem_singleton.2 normal

/-- An element with a comma and more elements after it. -/
theorem cons
    {others : List (RightPadded Tree)}
    (kind : test first.form = true)
    (normal : first.IsNormal)
    (plain : after.IsPlain)
    (areOthers : NormalElements test others) :
    NormalElements test (⟨first, after, .empty⟩ :: others) where
  fits := by
    cases others with
    | nil => exact areOthers.fits.elim
    | cons second more => exact ⟨kind, rfl, areOthers.fits⟩
  spaces := List.forall_mem_cons.2 ⟨plain, areOthers.spaces⟩
  parts := List.forall_mem_cons.2 ⟨normal, areOthers.parts⟩

end NormalElements

/-- A list of elements of a kind in normal form, or without elements. -/
structure NormalContainer
    (test : Form Tree -> Bool)
    (list : Container Tree) : Prop where
  fits : FitsContainer test list
  spaces : forall space, space ∈ list.allSpaces (fun _ => []) -> space.IsPlain
  parts : forall child, child ∈ list.elements -> child.IsNormal

namespace NormalContainer

variable {test : Form Tree -> Bool} {before : Space}

theorem ofNone
    {inner : Space}
    (beforePlain : before.IsPlain)
    (innerPlain : inner.IsPlain) :
    NormalContainer test ⟨before, [.build (.spaced inner .empty)], .empty⟩ where
  fits := ⟨rfl, .inl ⟨rfl, rfl⟩⟩
  spaces := List.forall_mem_cons.2 ⟨beforePlain, List.forall_mem_singleton.2 Space.isPlain_empty⟩
  parts := List.forall_mem_singleton.2 (isNormal_leaf rfl innerPlain)

theorem ofElements
    {padded : List (RightPadded Tree)}
    (plain : before.IsPlain)
    (normal : NormalElements test padded) :
    NormalContainer test ⟨before, padded, .empty⟩ where
  fits := ⟨rfl, .inr normal.fits⟩
  spaces := by simpa [Container.allSpaces, Markers.suffixes] using ⟨plain, by simpa using normal.spaces⟩
  parts := normal.parts

variable {list : Container Tree}

theorem fits_of_isEmpty
    (notEmpty : forall form, test form = true -> form.isEmpty = false)
    (normal : NormalContainer test list) :
    FitsContainer (fun element => !element.isEmpty) list :=
  normal.fits.mono fun form kind => by rw [notEmpty form kind]; rfl

end NormalContainer

namespace Parser

/-- What a parser gives is in normal form, and of a kind. -/
abbrev GivesNormal
    (test : Form Tree -> Bool)
    (parser : Space -> Parser Tree) : Prop :=
  forall leading : Space, leading.IsPlain -> Gives (parser leading) fun tree => tree.IsNormal ∧ test tree.form = true

theorem gives_gap : Gives gap Space.IsPlain := by
  intro text space rest read
  obtain ⟨run, -, rfl⟩ := gap_eq_ok.1 read
  exact Space.isPlain_format run

section Lists

variable {test : Form Tree -> Bool} {element : Space -> Parser Tree} (gives : GivesNormal test element)

include gives

theorem normal_listElements
    (close : Text)
    (bound : Nat) :
    Gives (listElements close element bound) (NormalElements test) := by
  induction bound with
  | zero => exact .fail _
  | succ bound ih =>
      refine .bind gives_gap fun leading isPlain => .bind (gives leading isPlain) fun first ⟨normal, kind⟩ => ?_
      refine .bind gives_gap fun after afterPlain => .skip fun comma => ?_
      split
      · refine .skip fun saved => .bind gives_gap fun suffix suffixPlain => .skip fun closed => ?_
        split
        · refine .pure (.last kind normal afterPlain (.inr ⟨_, suffix, toList_trailingCommaMarkers suffix, rfl⟩) ?_)
          simpa [Markers.suffixes] using suffixPlain
        · exact .skip fun _ => .bind ih fun rest areRest => .pure (.cons kind normal afterPlain areRest)
      · refine .skip fun closed => ?_
        split
        · exact .pure (.last kind normal afterPlain (.inl rfl) nofun)
        · exact .fail _

theorem normal_container
    {before : Space}
    (plain : before.IsPlain)
    (delimiters : Text × Text) :
    Gives (container element before delimiters) (NormalContainer test) := by
  refine .skip fun _ => .skip fun saved => .bind gives_gap fun inner innerPlain => .skip fun closed => ?_
  split
  · exact .pure (.ofNone plain innerPlain)
  · exact .skip fun _ => .bind (normal_listElements gives _ _) fun padded normal => .pure (.ofElements plain normal)

end Lists
end Parser

/-! ## Forms of expressions -/

namespace Form

variable {first name right : Tree} {before after : Space} {list : Container Tree}

theorem isNormal_parentheses
    (plain : after.IsPlain) :
    (Form.parentheses ⟨first, after, .empty⟩).IsNormal where
  opening := nofun
  statements := nofun
  elements := nofun
  operands := trivial
  operandMarkers := List.forall_mem_singleton.2 rfl
  spaces := List.forall_mem_singleton.2 plain

theorem isNormal_collection (normal : NormalContainer isValue list) : (Form.collection .list list none).IsNormal where
  opening := nofun
  statements := nofun
  elements := by
    rintro _ ⟨⟩
    exact normal.fits_of_isEmpty fun _ => isEmpty_of_isValue
  operands := trivial
  operandMarkers := nofun
  spaces := normal.spaces

theorem isNormal_plainCall
    {text : Text}
    (normal : NormalContainer isValue list) :
    (Form.call none (.identifier text) list none).IsNormal where
  opening := by
    rintro _ ⟨⟩
    rfl
  statements := nofun
  elements := by
    rintro _ ⟨⟩
    exact normal.fits_of_isEmpty fun _ => isEmpty_of_isValue
  operands := trivial
  operandMarkers := nofun
  spaces := normal.spaces

theorem isEmpty_leading_withLeading (tree : Tree) : (tree.withLeading .empty).leading.isEmpty = true := by
  rw [Tree.leading_withLeading]
  rfl

theorem isNormal_call
    {nameLeading : Space}
    {text : Text}
    (plain : before.IsPlain)
    (normal : NormalContainer Form.isValue list) :
    (Form.call (some ⟨first.withLeading .empty, before, .empty⟩) (.spaced nameLeading (.identifier text none)) list
      none).IsNormal where
  opening := by
    rintro _ ⟨⟩
    exact isEmpty_leading_withLeading first
  statements := nofun
  elements := by
    rintro _ ⟨⟩
    exact normal.fits_of_isEmpty fun _ => isEmpty_of_isValue
  operands := trivial
  operandMarkers := List.forall_mem_singleton.2 rfl
  spaces := List.forall_mem_cons.2 ⟨plain, normal.spaces⟩

theorem isNormal_fieldAccess
    {nameLeading : Space}
    {text : Text}
    (plain : before.IsPlain) :
    (Form.fieldAccess (first.withLeading .empty) ⟨before, .spaced nameLeading (.identifier text none), .empty⟩
      none).IsNormal where
  opening := by
    rintro _ ⟨⟩
    exact isEmpty_leading_withLeading first
  statements := nofun
  elements := nofun
  operands := trivial
  operandMarkers := List.forall_mem_singleton.2 rfl
  spaces := List.forall_mem_singleton.2 plain

theorem isNormal_binary
    {operator : Operator}
    (isLeft : first.form.isOperand = true ∧ operator.precedence ≤ first.form.tightness)
    (isRight : right.form.isOperand = true ∧ operator.precedence < right.form.tightness)
    (plain : before.IsPlain) :
    (Form.binary (first.withLeading .empty) ⟨before, operator, .empty⟩ right none).IsNormal where
  opening := by
    rintro _ ⟨⟩
    exact isEmpty_leading_withLeading first
  statements := nofun
  elements := nofun
  operands := by
    rw [NestsOperands, Tree.form_withLeading]
    exact ⟨isLeft, isRight⟩
  operandMarkers := List.forall_mem_singleton.2 rfl
  spaces := List.forall_mem_singleton.2 plain

theorem isNormal_assignment
    (isOperand : first.form.isOperand = true)
    (plain : before.IsPlain) :
    (Form.assignment (first.withLeading .empty) ⟨before, right, .empty⟩ none).IsNormal where
  opening := by
    rintro _ ⟨⟩
    exact isEmpty_leading_withLeading first
  statements := nofun
  elements := nofun
  operands := by
    rw [NestsOperands, Tree.form_withLeading]
    exact isOperand
  operandMarkers := List.forall_mem_singleton.2 rfl
  spaces := List.forall_mem_singleton.2 plain

end Form

/-! ## Chains -/

namespace Parser

section Expression

variable {expression : Space -> Parser Tree} (gives : GivesNormal Form.isValue expression)

include gives

theorem normal_parentheses : GivesNormal Form.isParentheses (parentheses expression) := by
  intro leading plain
  refine .skip fun _ => .bind gives_gap fun innerLeading innerPlain => .bind (gives _ innerPlain) fun inner known => ?_
  refine .bind gives_gap fun after afterPlain => .skip fun _ => .pure ⟨?_, rfl⟩
  exact Tree.isNormal_spaced plain (Form.isNormal_parentheses afterPlain) (List.forall_mem_singleton.2 known.1)

theorem normal_arguments? :
    Gives (arguments? expression) fun list => forall present, list = some present -> NormalContainer Form.isValue present := by
  refine .skip fun isCall => ?_
  split
  · refine .bind gives_gap fun before plain => .bind (normal_container gives plain _) fun list normal => .pure ?_
    rintro _ ⟨⟩
    exact normal
  · exact .pure nofun

theorem normal_word : GivesNormal Form.isChain (word expression) := by
  intro leading plain text tree rest read
  obtain ⟨name, middle, -, -, -, ⟨-, rfl, -⟩ | ⟨noLiteral, arguments, readArguments, rfl⟩⟩ := word_cases read
  · exact ⟨isNormal_leaf rfl plain, rfl⟩
  · have atArguments := normal_arguments? gives _ _ _ readArguments
    cases arguments with
    | none => exact ⟨isNormal_leaf rfl plain, by simp [Form.isChain, Form.isOperand, noLiteral, Form.tightness]⟩
    | some list =>
        have normal := atArguments list rfl
        have isName : (Tree.identifier name).IsNormal := isNormal_leaf rfl Space.isPlain_empty
        refine ⟨Tree.isNormal_spaced plain (Form.isNormal_plainCall normal) ?_, rfl⟩
        exact List.forall_mem_cons.2 ⟨isName, normal.parts⟩

theorem normal_primary : GivesNormal Form.isChain (primary expression) := by
  intro leading plain
  refine .skip fun text => ?_
  cases text with
  | nil => exact .fail _
  | cons first rest =>
      dsimp only
      split
      · refine fun text tree rest read => ?_
        obtain ⟨normal, isParentheses⟩ := normal_parentheses gives leading plain text tree rest read
        exact ⟨normal, Form.isChain_of_isParentheses isParentheses⟩
      · split
        · refine .bind (normal_container gives Space.isPlain_empty _) fun list normal => .pure ⟨?_, rfl⟩
          exact Tree.isNormal_spaced plain (Form.isNormal_collection normal) normal.parts
        · split
          · cases splitQuoted? first false rest with
            | none => exact .fail _
            | some parts => exact .skip fun _ => .pure ⟨isNormal_leaf rfl plain, rfl⟩
          · split
            · exact .skip fun _ => .skip fun body => .pure ⟨isNormal_leaf rfl plain, rfl⟩
            · split
              · exact normal_word gives leading plain
              · exact .fail _

theorem normal_postfixes
    (bound : Nat)
    {tree : Tree}
    (normal : tree.IsNormal)
    (isChain : tree.form.isChain = true) :
    Gives (postfixes expression bound tree) fun result => result.IsNormal ∧ result.form.isChain = true := by
  induction bound generalizing tree with
  | zero => exact .fail _
  | succ bound ih =>
      have plain := normal.root.leading
      refine .skip fun saved => .bind gives_gap fun beforeDot dotPlain => .skip fun isDot => ?_
      split
      · refine .bind gives_gap fun nameLeading namePlain => .skip fun text => ?_
        have isName : (Tree.spaced nameLeading (.identifier text none)).IsNormal := isNormal_leaf rfl namePlain
        refine .bind (normal_arguments? gives) fun arguments atArguments => ?_
        cases arguments with
        | none =>
            refine ih (Tree.isNormal_spaced plain (Form.isNormal_fieldAccess dotPlain) ?_) rfl
            exact List.forall_mem_cons.2 ⟨normal.withLeading_empty, List.forall_mem_singleton.2 isName⟩
        | some list =>
            have areNormal := atArguments list rfl
            refine ih (Tree.isNormal_spaced plain (Form.isNormal_call dotPlain areNormal) ?_) rfl
            exact List.forall_mem_cons.2 ⟨normal.withLeading_empty, List.forall_mem_cons.2 ⟨isName, areNormal.parts⟩⟩
      · exact .skip fun _ => .pure ⟨normal, isChain⟩

theorem normal_chained : GivesNormal Form.isChain (chained expression) := by
  intro leading plain
  refine .bind (normal_primary gives leading plain) fun first known => .skip fun text => ?_
  exact normal_postfixes gives _ known.1 known.2

end Expression
end Parser

/-! ## Operations -/

/-- An operand of a precedence, in normal form, read up to where only looser operators go on. -/
structure IsNormalOperand
    (precedence : Nat)
    (tree : Tree)
    (rest : Text) : Prop where
  normal : tree.IsNormal
  isOperand : tree.form.isOperand = true
  tight : precedence ≤ tree.form.tightness
  next : NextBelow precedence rest

theorem isNormalOperand_of_operations
    {operand : Nat -> Space -> Parser Tree}
    {precedence bound : Nat}
    {left result : Tree}
    {text rest : Text}
    (gives : forall {operator : Operator}, precedence ≤ operator.precedence ->
      forall {leading : Space} {text tree rest}, leading.IsPlain ->
        operand (operator.precedence + 1) leading text = .ok (tree, rest) ->
          IsNormalOperand (operator.precedence + 1) tree rest)
    (normal : left.IsNormal)
    (isOperand : left.form.isOperand = true)
    (tight : precedence ≤ left.form.tightness)
    (next : NextBelow (left.form.tightness + 1) text)
    (read : operations operand precedence bound left text = .ok (result, rest)) :
    IsNormalOperand precedence result rest := by
  induction bound generalizing left text with
  | zero => simp [operations] at read
  | succ bound ih =>
      obtain ⟨rfl, rfl, below⟩ | ⟨before, atOperator, operator, tail, rightLeading, atRight, right, afterRight,
        readBefore, found, tighter, readLeading, readRight, readMore⟩ := operations_cases read
      · exact ⟨normal, isOperand, tight, below⟩
      · have atRight := gives tighter (gives_gap _ _ _ readLeading) readRight
        -- an operator that binds tighter than the root of `left` would have been read into its right operand
        have leftTight : operator.precedence ≤ left.form.tightness :=
          Nat.lt_succ_iff.1 (next.precedence_lt readBefore found)
        have formNormal : (Form.binary (left.withLeading .empty) ⟨before, operator, .empty⟩ right none).IsNormal :=
          Form.isNormal_binary ⟨isOperand, leftTight⟩ ⟨atRight.isOperand, atRight.tight⟩ (gives_gap _ _ _ readBefore)
        -- the new left operand is as tight as its operator, and the right one was read as far as that goes
        refine ih (Tree.isNormal_spaced normal.root.leading formNormal ?_) rfl tighter
          atRight.next readMore
        exact List.forall_mem_cons.2 ⟨normal.withLeading_empty, List.forall_mem_singleton.2 atRight.normal⟩

section Expression

variable {expression : Space -> Parser Tree} (gives : GivesNormal Form.isValue expression)

include gives

theorem isNormalOperand_of_binary
    {levels precedence : Nat}
    {tree : Tree}
    {text rest : Text}
    (enough : operatorLevels ≤ levels + precedence)
    (isPrecedence : precedence ≤ operatorLevels)
    (plain : leading.IsPlain)
    (read : binary expression levels precedence leading text = .ok (tree, rest)) :
    IsNormalOperand precedence tree rest := by
  induction levels generalizing precedence leading text tree rest with
  | zero =>
      obtain ⟨normal, isChain⟩ := normal_chained gives leading plain _ _ _ read
      rw [Form.isChain, Bool.and_eq_true, decide_eq_true_eq] at isChain
      exact ⟨normal, isChain.1, by omega, nextBelow_of_operatorLevels (by omega) rest⟩
  | succ levels ih =>
      unfold binary at read
      simp only [bind_eq_ok, get_eq_ok] at read
      obtain ⟨first, middle, readFirst, _, _, ⟨rfl, rfl⟩, read⟩ := read
      obtain ⟨normal, isChain⟩ := normal_chained gives leading plain _ _ _ readFirst
      rw [Form.isChain, Bool.and_eq_true, decide_eq_true_eq] at isChain
      refine isNormalOperand_of_operations ?_ normal isChain.1 (by omega)
        (nextBelow_of_operatorLevels (by omega) middle) read
      intro operator tighter leading text tree rest plain readRight
      have below := precedence_lt_operatorLevels operator
      exact ih (by omega) (by omega) plain readRight

/-! ## Assignments -/

theorem normal_expressionStep : GivesNormal Form.isValue (expressionStep expression) := by
  intro leading plain
  have target : Gives (binary expression operatorLevels 0 leading) fun tree =>
      tree.IsNormal ∧ tree.form.isOperand = true := fun text tree rest read =>
    have atOperand := isNormalOperand_of_binary gives (Nat.le_refl _) (Nat.zero_le _) plain read
    ⟨atOperand.normal, atOperand.isOperand⟩
  refine .bind target fun target ⟨normal, isOperand⟩ => .skip fun saved => .bind gives_gap fun before beforePlain => ?_
  refine .skip fun isEquality => .skip fun isAssignment => ?_
  split
  · refine .bind gives_gap fun valueLeading valuePlain => .bind (gives _ valuePlain) fun value known => .pure ⟨?_, rfl⟩
    refine Tree.isNormal_spaced normal.root.leading (Form.isNormal_assignment isOperand beforePlain) ?_
    exact List.forall_mem_cons.2 ⟨normal.withLeading_empty, List.forall_mem_singleton.2 known.1⟩
  · exact .skip fun _ => .pure ⟨normal, Form.isValue_of_isOperand isOperand⟩

end Expression

theorem normal_expressionWithin (nestings : Nat) : GivesNormal Form.isValue (expressionWithin nestings) := by
  induction nestings with
  | zero => exact fun _ _ => .fail _
  | succ nestings ih => exact normal_expressionStep ih

theorem normal_expression : GivesNormal Form.isValue Parser.expression :=
  fun leading plain => .skip fun _ => normal_expressionWithin _ leading plain

end Java
end Lossless
