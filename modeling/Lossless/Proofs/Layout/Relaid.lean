import Lossless.Proofs.Format.Exact
import Lossless.Proofs.Java.Canonical
import Mathlib.Data.List.Forall2

/-!
# Trees that are laid out anew

Formatting leaves the syntax of a tree alone and changes its spaces. What a pass makes of a space depends on
its slot: the place, the column that its line goes to, and the blank that the style wants there. The slots
follow from the kinds of the nodes and from which spaces break the line, so they are the same in two trees
that differ in what stands on the lines alone.

`Relaid styles gap` relates two trees of the same syntax whose spaces are related by `gap`, slot by slot.
Columns are those of lists whose elements are not aligned with the first one.
-/

namespace Lossless
namespace Format

open Java

/-! ## Slots -/

/-- What a pass can know about a space. -/
structure Slot where
  place : SpacePlace
  /-- The column that what follows the space goes to, when the space breaks the line. -/
  column : Nat
  /-- The blank that the spacing style wants; nothing where it leaves the space alone. -/
  blank : Option Bool

/-- What is around a node. -/
structure Surroundings where
  /-- The column of the innermost line start. -/
  line : Nat
  /-- How the parts of the node around relate to its line. -/
  nesting : Nesting
  /-- The column that a list gives to the node. -/
  element : Option Nat := none
  /-- The column of the wrapped segments of the chain of calls that goes on behind the node. -/
  chain : Option Nat := none
  /-- A block here is the body of the node around, and not a statement. -/
  isBody : Bool := true
  /-- The blank that the node around wants before the node. -/
  blank : Option Bool := none

/-- What is inside a node. -/
structure Interior where
  /-- The column of the innermost line start. -/
  line : Nat
  /-- How the parts of the node relate to its line. -/
  nesting : Nesting
  /-- The column of the wrapped segments of the chain of calls that the node is a part of. -/
  chain : Nat

namespace Surroundings

/-- What is around a whole source. -/
def root : Surroundings where
  line := 0
  nesting := .aligned

/-- The space before the node goes to the column of the line around it, whatever the nesting. -/
def isForced
    (around : Surroundings)
    (form : Form Tree) : Bool :=
  match form with
  | .otherwise _ => true
  | .block .. => around.isBody
  | _ => false

variable (styles : Styles)

/-- The slot of the space before a node. -/
def slot
    (around : Surroundings)
    (form : Form Tree) : Slot where
  place := form.leadingPlace
  column :=
    around.element.getD <| Exact.columnFor styles.indents around.line <|
      if around.isForced form then .aligned else around.nesting
  blank :=
    match form with
    | .otherwise _ => some true
    | .block .. => if around.isBody then some styles.spacing.punctuation.beforeLeftBrace else none
    | _ => around.blank

/-- What is inside a node with these surroundings. -/
def interior
    (around : Surroundings)
    (leading : Space)
    (form : Form Tree) : Interior :=
  let line := if leading.containsNewline then (around.slot styles form).column else around.line
  ⟨line, Indents.nestingOf styles.indents form,
    around.chain.getD (line + styles.indents.continuationIndent)⟩

end Surroundings

namespace Interior

/-- The surroundings of a part. -/
def part (inside : Interior) : Surroundings where
  line := inside.line
  nesting := inside.nesting

/-- The surroundings of a statement in a list. -/
def statement (inside : Interior) : Surroundings :=
  { inside.part with isBody := false }

/-- The surroundings of a part with a gap that the spacing style governs. -/
def spaced
    (inside : Interior)
    (blank : Bool) : Surroundings :=
  { inside.part with blank := some blank }

/-- The surroundings of the receiver of a call. -/
def receiver (inside : Interior) : Surroundings :=
  { inside.part with chain := some inside.chain }

/-- The surroundings of an element of a list. -/
def element
    (inside : Interior)
    (column : Nat)
    (blank : Bool) : Surroundings :=
  { inside.part with element := some column, blank := some blank }

/-- Behind a receiver that the line breaks after, the line is that of the segment. -/
def afterReceiver
    (inside : Interior)
    (after : Space) : Interior :=
  if after.containsNewline then { inside with line := inside.chain } else inside

/-- The slot of a space that goes to the column of the line. -/
def edge
    (inside : Interior)
    (place : SpacePlace) : Slot where
  place := place
  column := inside.line
  blank := none

/-- The slot of a space between two parts. -/
def gap
    (styles : Styles)
    (inside : Interior)
    (place : SpacePlace)
    (blank : Option Bool) : Slot where
  place := place
  column := Exact.columnFor styles.indents inside.line inside.nesting
  blank := blank

/-- The slot of the space before the dot of a segment. -/
def segment (inside : Interior) : Slot where
  place := .methodSelectSuffix
  column := inside.chain
  blank := none

end Interior

/-- How a delimited list is laid out. -/
structure ListLayout where
  place : ContainerPlace
  columns : Indents.ListColumns
  spacing : ListSpacing
  beside : BesidePunctuation

namespace ListLayout

/-- The slot of the space after an element with a comma behind it. -/
def beforeComma (layout : ListLayout) : Slot where
  place := layout.place.element.after
  column := layout.columns.wrapped
  blank := some layout.beside.beforeComma

/-- The slot of the space before the closing delimiter. -/
def beforeClosing
    (layout : ListLayout)
    (place : SpacePlace)
    (blank : Option Bool) : Slot where
  place := place
  column := layout.columns.enclosing
  blank := blank

end ListLayout

namespace Interior

variable (styles : Styles)

/-- The layout of a list inside a node. -/
def list
    (inside : Interior)
    (place : ContainerPlace)
    (spacing : ListSpacing) : ListLayout where
  place := place
  columns := Exact.listColumns styles.indents inside.line place
  spacing := spacing
  beside := styles.spacing.punctuation

/-- The layout of the arguments of a call. -/
def arguments (inside : Interior) : ListLayout :=
  let style := styles.spacing
  inside.list styles .methodInvocationArguments
    ⟨style.beforeParentheses.call, style.within.call, style.within.emptyCall⟩

/-- The layout of the parameters of a declaration. -/
def parameters (inside : Interior) : ListLayout :=
  let style := styles.spacing
  inside.list styles .methodDeclarationParameters
    ⟨style.beforeParentheses.declaration, style.within.declaration, style.within.emptyDeclaration⟩

/-- The layout of the elements of a collection. -/
def elements (inside : Interior) : ListLayout :=
  inside.list styles .collectionElements ⟨false, styles.spacing.within.brackets, false⟩

end Interior

/-! ## Layers -/

section Layers

variable (styles : Styles)
variable (gap : Slot -> Space -> Space -> Prop)
variable (child : Surroundings -> Tree -> Tree -> Prop)

/-- Padded elements without markers whose parts are related. -/
structure RelaidPadded
    (around : Surroundings)
    (slot : Slot)
    (old new : RightPadded Tree) : Prop where
  element : child around old.element new.element
  after : gap slot old.after new.after
  unmarked : old.markers.toList = []
  unmarkedNew : new.markers.toList = []

/-- Operands without markers whose parts are related. -/
structure RelaidOperand
    (around : Surroundings)
    (slot : Slot)
    (old new : LeftPadded Tree) : Prop where
  before : gap slot old.before new.before
  element : child around old.element new.element
  unmarked : old.markers.toList = []
  unmarkedNew : new.markers.toList = []

/-- Statements that are related one by one. -/
inductive RelaidStatements
    (around : Surroundings)
    (slot : Slot) : List (RightPadded Tree) -> List (RightPadded Tree) -> Prop
  | nil : RelaidStatements around slot [] []
  | cons {old new : RightPadded Tree} {olds news : List (RightPadded Tree)} :
      RelaidPadded gap child around slot old new -> RelaidStatements around slot olds news ->
        RelaidStatements around slot (old :: olds) (new :: news)

/-- The last elements of two lists, both with a comma after them or both without. -/
inductive RelaidLast
    (layout : ListLayout)
    (around : Surroundings) : RightPadded Tree -> RightPadded Tree -> Prop
  | plain {old new : RightPadded Tree} :
      RelaidPadded gap child around
          (layout.beforeClosing layout.place.element.after (some layout.spacing.within)) old new ->
        RelaidLast layout around old new
  | comma {old new : RightPadded Tree} {marker newMarker : Marker Space} {suffix newSuffix : Space} :
      child around old.element new.element -> gap layout.beforeComma old.after new.after ->
        old.markers.toList = [marker] -> marker.fact = .trailingComma suffix ->
        new.markers.toList = [newMarker] -> newMarker.fact = .trailingComma newSuffix ->
        gap (layout.beforeClosing .trailingCommaSuffix (some layout.spacing.within)) suffix newSuffix ->
          RelaidLast layout around old new

/-- Elements that are related one by one; before the first one a blank of its own is wanted. -/
inductive RelaidElements
    (layout : ListLayout)
    (inside : Interior) :
    Bool -> List (RightPadded Tree) -> List (RightPadded Tree) -> Prop
  | last {blank : Bool} {old new : RightPadded Tree} :
      RelaidLast gap child layout (inside.element layout.columns.wrapped blank) old new ->
        RelaidElements layout inside blank [old] [new]
  | cons {blank : Bool} {old new : RightPadded Tree} {olds news : List (RightPadded Tree)} :
      RelaidPadded gap child (inside.element layout.columns.wrapped blank) layout.beforeComma old new ->
        RelaidElements layout inside layout.beside.afterComma olds news ->
          RelaidElements layout inside blank (old :: olds) (new :: news)

/-- The empty nodes of two lists without elements. -/
inductive RelaidNone
    (layout : ListLayout)
    (inside : Interior) : List (RightPadded Tree) -> List (RightPadded Tree) -> Prop
  | only {old new : RightPadded Tree} :
      old.element.form = .empty -> new.element.form = .empty ->
        RelaidPadded gap child (inside.element layout.columns.wrapped layout.spacing.withinEmpty)
            (layout.beforeClosing layout.place.element.after none) old new ->
          RelaidNone layout inside [old] [new]

/-- Delimited lists that are related part by part. -/
structure RelaidContainer
    (layout : ListLayout)
    (inside : Interior)
    (old new : Container Tree) : Prop where
  before : gap (inside.gap styles layout.place.before (some layout.spacing.before)) old.before new.before
  unmarked : old.markers.toList = []
  unmarkedNew : new.markers.toList = []
  padded : RelaidNone gap child layout inside old.padded new.padded ∨
    ¬IsNone old.padded ∧ ¬IsNone new.padded ∧
      RelaidElements gap child layout inside layout.spacing.within old.padded new.padded

/-- Forms of one kind with the same tokens, whose spaces and children are related. -/
inductive RelaidForm (inside : Interior) : Form Tree -> Form Tree -> Prop
  | compilationUnit {dialect source statements statements' eof eof'} :
      RelaidStatements gap child inside.statement (inside.edge .compilationUnitStatementSuffix)
          statements statements' ->
        gap (inside.edge .compilationUnitEof) eof eof' ->
          RelaidForm inside (.compilationUnit dialect source statements eof)
            (.compilationUnit dialect source statements' eof')
  | block {statements statements' closing closing'} :
      RelaidStatements gap child inside.statement (inside.edge .blockStatementSuffix)
          statements statements' ->
        gap (inside.edge .blockEnd) closing closing' ->
          RelaidForm inside (.block statements closing) (.block statements' closing')
  | conditional {condition condition' consequence consequence' alternative alternative'} :
      child (inside.spaced styles.spacing.beforeParentheses.conditional) condition condition' ->
        RelaidPadded gap child inside.part (inside.edge .ifThenSuffix) consequence consequence' ->
        Option.Rel (child inside.part) alternative alternative' ->
          RelaidForm inside (.conditional condition consequence alternative)
            (.conditional condition' consequence' alternative')
  | otherwise {body body'} :
      RelaidPadded gap child inside.part (inside.edge .elseSuffix) body body' ->
        RelaidForm inside (.otherwise body) (.otherwise body')
  | returns {value value'} :
      Option.Rel (child inside.part) value value' ->
        RelaidForm inside (.returns value) (.returns value')
  | assignment {target target' value value' typeTag} :
      child inside.part target target' ->
        RelaidOperand gap child (inside.spaced styles.spacing.aroundOperators.assignment)
            (inside.gap styles .assignmentOperatorPrefix
              (some styles.spacing.aroundOperators.assignment)) value value' ->
          RelaidForm inside (.assignment target value typeTag) (.assignment target' value' typeTag)
  | binary {left left' right right' typeTag} {operator operator' : LeftPadded Operator} {around : Bool} :
      around = aroundOperator styles.spacing.aroundOperators operator.element ->
        operator.element = operator'.element -> operator.markers.toList = [] ->
        operator'.markers.toList = [] -> child inside.part left left' ->
        gap (inside.gap styles .binaryOperator (some around)) operator.before operator'.before ->
        child (inside.spaced around) right right' ->
          RelaidForm inside (.binary left operator right typeTag)
            (.binary left' operator' right' typeTag)
  | identifier {name typeTag} :
      RelaidForm inside (.identifier name typeTag) (.identifier name typeTag)
  | literal {source typeTag} : RelaidForm inside (.literal source typeTag) (.literal source typeTag)
  | fieldAccess {target target' name name' typeTag} :
      child inside.part target target' ->
        RelaidOperand gap child inside.part (inside.gap styles .fieldAccessName none) name name' ->
          RelaidForm inside (.fieldAccess target name typeTag) (.fieldAccess target' name' typeTag)
  | plainCall {name name' list list' typeTag} :
      child inside.part name name' ->
        RelaidContainer styles gap child (inside.arguments styles) inside list list' ->
          RelaidForm inside (.call none name list typeTag) (.call none name' list' typeTag)
  | call {receiver receiver' name name' list list' typeTag} {behind : Interior} :
      behind = inside.afterReceiver receiver.after ->
        RelaidPadded gap child inside.receiver inside.segment receiver receiver' ->
        child behind.part name name' ->
        RelaidContainer styles gap child (behind.arguments styles) behind list list' ->
          RelaidForm inside (.call (some receiver) name list typeTag)
            (.call (some receiver') name' list' typeTag)
  | declaration {returnType returnType' name name' list list' body body'} :
      Option.Rel (child inside.part) returnType returnType' -> child inside.part name name' ->
        RelaidContainer styles gap child (inside.parameters styles) inside list list' ->
        Option.Rel (child inside.part) body body' ->
          RelaidForm inside (.declaration returnType name list body)
            (.declaration returnType' name' list' body')
  | parentheses {inner inner'} :
      RelaidPadded gap child inside.part (inside.edge .parenthesesSuffix) inner inner' ->
        RelaidForm inside (.parentheses inner) (.parentheses inner')
  | collection {kind list list' typeTag} :
      RelaidContainer styles gap child (inside.elements styles) inside list list' ->
        RelaidForm inside (.collection kind list typeTag) (.collection kind list' typeTag)
  | empty : RelaidForm inside .empty .empty
  | unknown {text} : RelaidForm inside (.unknown text) (.unknown text)

/-- Nodes without markers, with related spaces before them and related forms. -/
structure RelaidNode
    (around : Surroundings)
    (old new : Tree) : Prop where
  leading : gap (around.slot styles old.form) old.leading new.leading
  unmarked : old.markers.toList = []
  unmarkedNew : new.markers.toList = []
  form : RelaidForm styles gap child (around.interior styles old.leading old.form) old.form new.form

end Layers

/-! ## Children -/

/-- What is in the second of two related lists is related to something in the first one. -/
theorem exists_of_forall₂
    {α β : Type}
    {related : α -> β -> Prop}
    {olds : List α}
    {news : List β}
    {new : β}
    (all : List.Forall₂ related olds news)
    (member : new ∈ news) :
    exists old, old ∈ olds ∧ related old new := by
  induction all with
  | nil => cases member
  | cons first _ ih =>
      rcases List.mem_cons.1 member with rfl | later
      · exact ⟨_, List.mem_cons_self, first⟩
      · obtain ⟨old, among, holds⟩ := ih later
        exact ⟨old, List.mem_cons_of_mem _ among, holds⟩

/-- A node is related to the one in its place, with some surroundings. -/
abbrev RelatedSomewhere
    (child : Surroundings -> Tree -> Tree -> Prop)
    (old new : Tree) : Prop :=
  ∃ around, child around old new

section Children

variable {styles : Styles}
variable {gap : Slot -> Space -> Space -> Prop}
variable {child : Surroundings -> Tree -> Tree -> Prop}
variable {inside : Interior} {around : Surroundings} {layout : ListLayout}

theorem forall₂_toList
    {old new : Option Tree}
    (related : Option.Rel (child around) old new) :
    List.Forall₂ (child around) old.toList new.toList := by
  cases related with
  | none => exact .nil
  | some related => exact .cons related .nil

theorem forall₂_somewhere
    {old new : List Tree}
    (related : List.Forall₂ (child around) old new) :
    List.Forall₂ (RelatedSomewhere child) old new :=
  related.imp fun _ _ first => ⟨around, first⟩

theorem RelaidStatements.children
    {slot : Slot}
    {olds news : List (RightPadded Tree)}
    (related : RelaidStatements gap child around slot olds news) :
    List.Forall₂ (RelatedSomewhere child) (RightPadded.elements olds) (RightPadded.elements news) := by
  induction related with
  | nil => exact .nil
  | cons first _ ih => exact .cons ⟨_, first.element⟩ ih

theorem RelaidLast.element
    {old new : RightPadded Tree}
    (related : RelaidLast gap child layout around old new) :
    child around old.element new.element := by
  cases related with
  | plain padded => exact padded.element
  | comma element => exact element

theorem RelaidElements.children
    {blank : Bool}
    {olds news : List (RightPadded Tree)}
    (related : RelaidElements gap child layout inside blank olds news) :
    List.Forall₂ (RelatedSomewhere child) (RightPadded.elements olds) (RightPadded.elements news) := by
  induction related with
  | last last => exact .cons ⟨_, last.element⟩ .nil
  | cons first _ ih => exact .cons ⟨_, first.element⟩ ih

theorem RelaidNone.children
    {olds news : List (RightPadded Tree)}
    (related : RelaidNone gap child layout inside olds news) :
    List.Forall₂ (RelatedSomewhere child) (RightPadded.elements olds) (RightPadded.elements news) := by
  cases related with
  | only _ _ padded => exact .cons ⟨_, padded.element⟩ .nil

theorem RelaidContainer.children
    {old new : Container Tree}
    (related : RelaidContainer styles gap child layout inside old new) :
    List.Forall₂ (RelatedSomewhere child) old.elements new.elements := by
  rcases related.padded with none | ⟨-, -, elements⟩
  · exact none.children
  · exact elements.children

/-- The children of related forms are related, one by one. -/
theorem RelaidForm.children
    {old new : Form Tree}
    (related : RelaidForm styles gap child inside old new) :
    List.Forall₂ (RelatedSomewhere child) old.children new.children := by
  cases related with
  | compilationUnit statements => exact statements.children
  | block statements => exact statements.children
  | conditional condition consequence alternative =>
      exact .cons ⟨_, condition⟩ (.cons ⟨_, consequence.element⟩ (forall₂_somewhere (forall₂_toList alternative)))
  | otherwise body => exact .cons ⟨_, body.element⟩ .nil
  | returns value => exact forall₂_somewhere (forall₂_toList value)
  | assignment target value => exact .cons ⟨_, target⟩ (.cons ⟨_, value.element⟩ .nil)
  | binary _ _ _ _ left _ right => exact .cons ⟨_, left⟩ (.cons ⟨_, right⟩ .nil)
  | identifier => exact .nil
  | literal => exact .nil
  | fieldAccess target name => exact .cons ⟨_, target⟩ (.cons ⟨_, name.element⟩ .nil)
  | plainCall name list => exact .cons ⟨_, name⟩ list.children
  | call _ receiver name list => exact .cons ⟨_, receiver.element⟩ (.cons ⟨_, name⟩ list.children)
  | declaration returnType name list body =>
      exact List.rel_append
        (List.rel_append (forall₂_somewhere (forall₂_toList returnType)) (.cons ⟨_, name⟩ list.children))
        (forall₂_somewhere (forall₂_toList body))
  | parentheses inner => exact .cons ⟨_, inner.element⟩ .nil
  | collection list => exact list.children
  | empty => exact .nil
  | unknown => exact .nil

end Children

/-! ## Trees -/

/--
Trees of the same syntax whose spaces are related, slot by slot. This is the largest relation that relates the
parts of what it relates; trees being finite, it is the only one.
-/
def Relaid
    (styles : Styles)
    (gap : Slot -> Space -> Space -> Prop)
    (around : Surroundings)
    (old new : Tree) : Prop :=
  ∃ relation : Surroundings -> Tree -> Tree -> Prop,
    (forall around old new, relation around old new -> RelaidNode styles gap relation around old new) ∧
      relation around old new

section Mono

variable {styles : Styles}
variable {gap gap' : Slot -> Space -> Space -> Prop}
variable {child child' : Surroundings -> Tree -> Tree -> Prop}
variable (gaps : forall slot old new, gap slot old new -> gap' slot old new)

/-- What stands in the same place of two lists of trees and is related is so by the weaker relation. -/
def WeakensAt
    (child child' : Surroundings -> Tree -> Tree -> Prop)
    (olds news : List Tree) : Prop :=
  forall old new, (old, new) ∈ olds.zip news -> forall around, child around old new -> child' around old new

theorem WeakensAt.of_subset
    {few fewNew many manyNew : List Tree}
    (children : WeakensAt child child' many manyNew)
    (subset : few.zip fewNew ⊆ many.zip manyNew) :
    WeakensAt child child' few fewNew :=
  fun old new member => children old new (subset member)

/-- Related single trees. -/
theorem WeakensAt.single
    {around : Surroundings}
    {old new : Tree}
    (children : WeakensAt child child' [old] [new])
    (related : child around old new) :
    child' around old new :=
  children _ _ (List.mem_singleton_self _) _ related

theorem relaidOption_mono
    {around : Surroundings}
    {old new : Option Tree}
    (children : WeakensAt child child' old.toList new.toList)
    (related : Option.Rel (child around) old new) :
    Option.Rel (child' around) old new := by
  cases related with
  | none => exact .none
  | some related => exact .some (children.single related)

include gaps

theorem RelaidPadded.mono
    {around : Surroundings}
    {slot : Slot}
    {old new : RightPadded Tree}
    (children : WeakensAt child child' [old.element] [new.element])
    (related : RelaidPadded gap child around slot old new) :
    RelaidPadded gap' child' around slot old new :=
  ⟨children.single related.element, gaps _ _ _ related.after, related.unmarked, related.unmarkedNew⟩

theorem RelaidOperand.mono
    {around : Surroundings}
    {slot : Slot}
    {old new : LeftPadded Tree}
    (children : WeakensAt child child' [old.element] [new.element])
    (related : RelaidOperand gap child around slot old new) :
    RelaidOperand gap' child' around slot old new :=
  ⟨gaps _ _ _ related.before, children.single related.element, related.unmarked, related.unmarkedNew⟩

theorem RelaidStatements.mono
    {around : Surroundings}
    {slot : Slot}
    {olds news : List (RightPadded Tree)}
    (children : WeakensAt child child' (RightPadded.elements olds) (RightPadded.elements news))
    (related : RelaidStatements gap child around slot olds news) :
    RelaidStatements gap' child' around slot olds news := by
  induction related with
  | nil => exact .nil
  | cons first _ ih =>
      exact .cons (first.mono gaps (children.of_subset (by simp [RightPadded.elements])))
        (ih (children.of_subset (by simp [RightPadded.elements])))

theorem RelaidLast.mono
    {layout : ListLayout}
    {around : Surroundings}
    {old new : RightPadded Tree}
    (children : WeakensAt child child' [old.element] [new.element])
    (related : RelaidLast gap child layout around old new) :
    RelaidLast gap' child' layout around old new := by
  cases related with
  | plain padded => exact .plain (padded.mono gaps children)
  | comma element after only isComma onlyNew isCommaNew suffix =>
      exact .comma (children.single element) (gaps _ _ _ after) only isComma onlyNew isCommaNew (gaps _ _ _ suffix)

theorem RelaidElements.mono
    {layout : ListLayout}
    {inside : Interior}
    {blank : Bool}
    {olds news : List (RightPadded Tree)}
    (children : WeakensAt child child' (RightPadded.elements olds) (RightPadded.elements news))
    (related : RelaidElements gap child layout inside blank olds news) :
    RelaidElements gap' child' layout inside blank olds news := by
  induction related with
  | last last => exact .last (last.mono gaps children)
  | cons first _ ih =>
      exact .cons (first.mono gaps (children.of_subset (by simp [RightPadded.elements])))
        (ih (children.of_subset (by simp [RightPadded.elements])))

theorem RelaidNone.mono
    {layout : ListLayout}
    {inside : Interior}
    {olds news : List (RightPadded Tree)}
    (children : WeakensAt child child' (RightPadded.elements olds) (RightPadded.elements news))
    (related : RelaidNone gap child layout inside olds news) :
    RelaidNone gap' child' layout inside olds news := by
  cases related with
  | only isEmpty isEmptyNew padded => exact .only isEmpty isEmptyNew (padded.mono gaps children)

theorem RelaidContainer.mono
    {layout : ListLayout}
    {inside : Interior}
    {old new : Container Tree}
    (children : WeakensAt child child' old.elements new.elements)
    (related : RelaidContainer styles gap child layout inside old new) :
    RelaidContainer styles gap' child' layout inside old new := by
  refine ⟨gaps _ _ _ related.before, related.unmarked, related.unmarkedNew, ?_⟩
  rcases related.padded with none | ⟨some, someNew, elements⟩
  · exact .inl (none.mono gaps children)
  · exact .inr ⟨some, someNew, elements.mono gaps children⟩

/-- Weaker relations hold between the parts of more forms. -/
theorem RelaidForm.mono
    {inside : Interior}
    {old new : Form Tree}
    (children : WeakensAt child child' old.children new.children)
    (related : RelaidForm styles gap child inside old new) :
    RelaidForm styles gap' child' inside old new := by
  cases related with
  | compilationUnit statements eof =>
      exact .compilationUnit (statements.mono gaps children) (gaps _ _ _ eof)
  | block statements closing => exact .block (statements.mono gaps children) (gaps _ _ _ closing)
  | conditional condition consequence alternative =>
      exact .conditional (children _ _ (by simp [Form.children]) _ condition)
        (consequence.mono gaps (children.of_subset (by simp [Form.children])))
        (relaidOption_mono (children.of_subset (by simp [Form.children])) alternative)
  | otherwise body => exact .otherwise (body.mono gaps children)
  | returns value => exact .returns (relaidOption_mono children value)
  | assignment target value =>
      exact .assignment (children _ _ (by simp [Form.children]) _ target)
        (value.mono gaps (children.of_subset (by simp [Form.children])))
  | binary around same unmarked unmarkedNew left before right =>
      exact .binary around same unmarked unmarkedNew (children _ _ (by simp [Form.children]) _ left)
        (gaps _ _ _ before) (children _ _ (by simp [Form.children]) _ right)
  | identifier => exact .identifier
  | literal => exact .literal
  | fieldAccess target name =>
      exact .fieldAccess (children _ _ (by simp [Form.children]) _ target)
        (name.mono gaps (children.of_subset (by simp [Form.children])))
  | plainCall name list =>
      exact .plainCall (children _ _ (by simp [Form.children]) _ name)
        (list.mono gaps (children.of_subset (by simp [Form.children])))
  | call behind receiver name list =>
      exact .call behind (receiver.mono gaps (children.of_subset (by simp [Form.children])))
        (children _ _ (by simp [Form.children]) _ name)
        (list.mono gaps (children.of_subset (by simp [Form.children])))
  | @declaration returnType returnType' name name' list list' body body' atType atName atList atBody =>
      have parts : (Form.declaration returnType name list body).children.zip
            (Form.declaration returnType' name' list' body').children =
          returnType.toList.zip returnType'.toList ++ (name, name') :: list.elements.zip list'.elements ++
            body.toList.zip body'.toList := by
        have types : returnType.toList.length = returnType'.toList.length := (forall₂_toList atType).length_eq
        rw [Form.children, Form.children, List.zip_append, List.zip_append types, List.zip_cons_cons]
        simp [types, atList.children.length_eq]
      rw [WeakensAt, parts] at children
      exact .declaration (relaidOption_mono (fun old new member => children old new (by simp [member])) atType)
        (children _ _ (by simp) _ atName) (atList.mono gaps fun old new member => children old new (by simp [member]))
        (relaidOption_mono (fun old new member => children old new (by simp [member])) atBody)
  | parentheses inner => exact .parentheses (inner.mono gaps children)
  | collection list => exact .collection (list.mono gaps children)
  | empty => exact .empty
  | unknown => exact .unknown

theorem RelaidNode.mono
    {around : Surroundings}
    {old new : Tree}
    (children : WeakensAt child child' old.form.children new.form.children)
    (related : RelaidNode styles gap child around old new) :
    RelaidNode styles gap' child' around old new :=
  ⟨gaps _ _ _ related.leading, related.unmarked, related.unmarkedNew,
    related.form.mono gaps children⟩

end Mono

section Trees

variable {styles : Styles}
variable {gap gap' : Slot -> Space -> Space -> Prop}
variable {around : Surroundings} {old new : Tree}

/-- Trees are related when their spaces and parts are. -/
theorem relaid_iff :
    Relaid styles gap around old new ↔ RelaidNode styles gap (Relaid styles gap) around old new := by
  constructor
  · rintro ⟨relation, closed, related⟩
    exact (closed around old new related).mono (fun _ _ _ => id)
      fun _ _ _ _ below => ⟨relation, closed, below⟩
  · intro related
    refine ⟨RelaidNode styles gap (Relaid styles gap), fun around old new related => ?_, related⟩
    refine related.mono (fun _ _ _ => id) fun _ _ _ _ below => ?_
    obtain ⟨relation, closed, below⟩ := below
    exact (closed _ _ _ below).mono (fun _ _ _ => id)
      fun _ _ _ _ further => ⟨relation, closed, further⟩

/-- Trees that are related slot by slot are so by a weaker relation. -/
theorem Relaid.mono
    (gaps : forall slot old new, gap slot old new -> gap' slot old new)
    (related : Relaid styles gap around old new) :
    Relaid styles gap' around old new :=
  ⟨Relaid styles gap, fun _ _ _ related => (relaid_iff.1 related).mono gaps fun _ _ _ _ => id, related⟩

end Trees

end Format
end Lossless
