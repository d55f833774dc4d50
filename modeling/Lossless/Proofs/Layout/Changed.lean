import Lossless.Proofs.Layout.Canonical

/-!
# Trees whose spaces change by place

Most passes make of a space what follows from its place alone, and so do copies of a tree, whose spaces have the
same content. Whatever changes the spaces of a tree in this way lays it out anew, in any surroundings; that the
tree can be read from a text tells what its lists and markers look like.
-/

namespace Lossless
namespace Format

open Java

/-- The spaces of a tree are changed by their places, in any surroundings. -/
abbrev Changed
    (styles : Styles)
    (gap : SpacePlace -> Space -> Space -> Prop)
    (old new : Tree) : Prop :=
  forall around, Relaid styles (fun slot => gap slot.place) around old new

/-! ## Paddings and lists -/

section Layers

variable (gap : SpacePlace -> Space -> Space -> Prop)
variable (child : Tree -> Tree -> Prop)

/-- Markers with related trailing commas, when there is nothing else among them. -/
def ChangedMarkers (old new : Markers Space) : Prop :=
  (old.toList = [] -> new.toList = []) ∧
    forall marker suffix, old.toList = [marker] -> marker.fact = .trailingComma suffix ->
      ∃ newMarker newSuffix, new.toList = [newMarker] ∧ newMarker.fact = .trailingComma newSuffix ∧
        gap .trailingCommaSuffix suffix newSuffix

/-- Padded elements with related spaces. -/
structure ChangedPadded
    (place : ElementPlace)
    (old new : RightPadded Tree) : Prop where
  element : child old.element new.element
  after : gap place.after old.after new.after
  markers : ChangedMarkers gap old.markers new.markers

/-- Operands with related spaces. -/
structure ChangedOperand
    (place : OperandPlace)
    (old new : LeftPadded Tree) : Prop where
  before : gap place.before old.before new.before
  element : child old.element new.element
  markers : ChangedMarkers gap old.markers new.markers

/-- Delimited lists with related spaces. -/
structure ChangedContainer
    (place : ContainerPlace)
    (old new : Container Tree) : Prop where
  before : gap place.before old.before new.before
  padded : List.Forall₂ (ChangedPadded gap child place.element) old.padded new.padded
  markers : ChangedMarkers gap old.markers new.markers

/-- Forms of one kind with related spaces. -/
inductive ChangedForm : Form Tree -> Form Tree -> Prop
  | compilationUnit {dialect source statements statements' eof eof'} :
      List.Forall₂ (ChangedPadded gap child .compilationUnitStatement) statements statements' ->
        gap .compilationUnitEof eof eof' ->
          ChangedForm (.compilationUnit dialect source statements eof)
            (.compilationUnit dialect source statements' eof')
  | block {statements statements' closing closing'} :
      List.Forall₂ (ChangedPadded gap child .blockStatement) statements statements' ->
        gap .blockEnd closing closing' ->
          ChangedForm (.block statements closing) (.block statements' closing')
  | conditional {condition condition' consequence consequence' alternative alternative'} :
      child condition condition' -> ChangedPadded gap child .ifThen consequence consequence' ->
        Option.Rel child alternative alternative' ->
          ChangedForm (.conditional condition consequence alternative)
            (.conditional condition' consequence' alternative')
  | otherwise {body body'} :
      ChangedPadded gap child .elseBody body body' -> ChangedForm (.otherwise body) (.otherwise body')
  | returns {value value'} :
      Option.Rel child value value' -> ChangedForm (.returns value) (.returns value')
  | assignment {target target' value value' typeTag} :
      child target target' -> ChangedOperand gap child .assignmentValue value value' ->
        ChangedForm (.assignment target value typeTag) (.assignment target' value' typeTag)
  | binary {left left' right right' typeTag} {operator operator' : LeftPadded Operator} :
      child left left' -> gap .binaryOperator operator.before operator'.before ->
        operator.element = operator'.element -> ChangedMarkers gap operator.markers operator'.markers ->
        child right right' ->
          ChangedForm (.binary left operator right typeTag) (.binary left' operator' right' typeTag)
  | identifier {name typeTag} : ChangedForm (.identifier name typeTag) (.identifier name typeTag)
  | literal {source typeTag} : ChangedForm (.literal source typeTag) (.literal source typeTag)
  | fieldAccess {target target' name name' typeTag} :
      child target target' -> ChangedOperand gap child .fieldAccessName name name' ->
        ChangedForm (.fieldAccess target name typeTag) (.fieldAccess target' name' typeTag)
  | call {receiver receiver' name name' list list' typeTag} :
      Option.Rel (ChangedPadded gap child .methodSelect) receiver receiver' -> child name name' ->
        ChangedContainer gap child .methodInvocationArguments list list' ->
          ChangedForm (.call receiver name list typeTag) (.call receiver' name' list' typeTag)
  | declaration {returnType returnType' name name' list list' body body'} :
      Option.Rel child returnType returnType' -> child name name' ->
        ChangedContainer gap child .methodDeclarationParameters list list' ->
        Option.Rel child body body' ->
          ChangedForm (.declaration returnType name list body)
            (.declaration returnType' name' list' body')
  | parentheses {inner inner'} :
      ChangedPadded gap child .parentheses inner inner' ->
        ChangedForm (.parentheses inner) (.parentheses inner')
  | collection {kind list list' typeTag} :
      ChangedContainer gap child .collectionElements list list' ->
        ChangedForm (.collection kind list typeTag) (.collection kind list' typeTag)
  | empty : ChangedForm .empty .empty
  | unknown {text} : ChangedForm (.unknown text) (.unknown text)

/-- Nodes without markers whose spaces and parts are related. -/
structure ChangedNode (old new : Tree) : Prop where
  leading : gap old.form.leadingPlace old.leading new.leading
  unmarked : old.markers.toList = []
  markers : ChangedMarkers gap old.markers new.markers
  form : ChangedForm gap child old.form new.form
  fits : old.form.Fits

end Layers

section Lists

variable {styles : Styles}
variable {gap : SpacePlace -> Space -> Space -> Prop}
variable {child : Tree -> Tree -> Prop}

theorem ChangedPadded.relaid
    {place : ElementPlace}
    {around : Surroundings}
    {slot : Slot}
    {old new : RightPadded Tree}
    (changed : ChangedPadded gap child place old new)
    (atPlace : slot.place = place.after)
    (unmarked : old.markers.toList = []) :
    RelaidPadded (fun slot => gap slot.place) (fun _ => child) around slot old new := by
  refine ⟨changed.element, ?_, unmarked, changed.markers.1 unmarked⟩
  rw [atPlace]
  exact changed.after

theorem relaidStatements_of_changed
    {place : ElementPlace}
    {around : Surroundings}
    {slot : Slot}
    {olds news : List (RightPadded Tree)}
    (changed : List.Forall₂ (ChangedPadded gap child place) olds news)
    (atPlace : slot.place = place.after)
    (unmarked : forall padded, padded ∈ olds -> padded.markers.toList = []) :
    RelaidStatements (fun slot => gap slot.place) (fun _ => child) around slot olds news := by
  induction changed with
  | nil => exact .nil
  | cons first _ ih =>
      obtain ⟨here, later⟩ := List.forall_mem_cons.1 unmarked
      exact .cons (first.relaid atPlace here) (ih later)

theorem relaidElements_of_changed
    {layout : ListLayout}
    {inside : Interior}
    {blank : Bool}
    {test : Form Tree -> Bool}
    {olds news : List (RightPadded Tree)}
    (changed : List.Forall₂ (ChangedPadded gap child layout.place.element) olds news)
    (fits : FitElements test olds) :
    RelaidElements (fun slot => gap slot.place) (fun _ => child) layout inside blank olds news := by
  induction changed generalizing blank with
  | nil => exact fits.elim
  | cons first others ih =>
      cases others with
      | nil =>
          refine .last ?_
          rcases fits.2 with unmarked | ⟨marker, suffix, only, isComma⟩
          · exact .plain (first.relaid rfl unmarked)
          · obtain ⟨newMarker, newSuffix, onlyNew, isCommaNew, related⟩ :=
              first.markers.2 marker suffix only isComma
            exact .comma first.element first.after only isComma onlyNew isCommaNew related
      | cons second more =>
          obtain ⟨-, unmarked, fitsOthers⟩ := fits
          exact .cons (first.relaid rfl unmarked) (ih fitsOthers)

/-- A delimited list with changed elements. -/
theorem ChangedContainer.relaid
    {place : ContainerPlace}
    {layout : ListLayout}
    {inside : Interior}
    {test : Form Tree -> Bool}
    {old new : Container Tree}
    (sameEmpty : forall old new, child old new -> new.form.isEmpty = old.form.isEmpty)
    (notEmpty : forall form, test form = true -> form.isEmpty = false)
    (changed : ChangedContainer gap child place old new)
    (atPlace : layout.place = place)
    (fits : FitsContainer test old) :
    RelaidContainer styles (fun slot => gap slot.place) (fun _ => child) layout inside old new := by
  obtain ⟨oldBefore, olds, oldMarkers⟩ := old
  obtain ⟨newBefore, news, newMarkers⟩ := new
  obtain ⟨unmarked, shape⟩ := fits
  obtain ⟨before, elements, markers⟩ := changed
  subst atPlace
  refine ⟨before, unmarked, markers.1 unmarked, ?_⟩
  rcases shape with none | fitElements
  · refine .inl ?_
    cases elements with
    | nil => exact none.elim
    | cons first others =>
        cases others with
        | nil =>
            have isEmptyNew := (sameEmpty _ _ first.element).trans none.1
            exact .only (Form.eq_empty_of_isEmpty none.1) (Form.eq_empty_of_isEmpty isEmptyNew)
              (first.relaid rfl none.2)
        | cons => exact none.elim
  · refine .inr ⟨not_isNone_of_fitElements notEmpty fitElements, ?_,
      relaidElements_of_changed elements fitElements⟩
    cases elements with
    | nil => exact fitElements.elim
    | cons first others =>
        cases others with
        | nil =>
            rintro ⟨isEmpty, -⟩
            rw [sameEmpty _ _ first.element, notEmpty _ fitElements.1] at isEmpty
            cases isEmpty
        | cons => exact id

end Lists

/-! ## Forms -/

/-- Changed forms hold an empty node both or neither. -/
theorem ChangedForm.isEmpty_eq
    {gap : SpacePlace -> Space -> Space -> Prop}
    {child : Tree -> Tree -> Prop}
    {old new : Form Tree}
    (changed : ChangedForm gap child old new) :
    new.isEmpty = old.isEmpty := by
  cases changed <;> rfl

section Forms

variable {styles : Styles}
variable {gap : SpacePlace -> Space -> Space -> Prop}
variable {child : Tree -> Tree -> Prop}

theorem ChangedOperand.relaid
    {place : OperandPlace}
    {around : Surroundings}
    {slot : Slot}
    {old new : LeftPadded Tree}
    (changed : ChangedOperand gap child place old new)
    (atPlace : slot.place = place.before)
    (unmarked : old.markers.toList = []) :
    RelaidOperand (fun slot => gap slot.place) (fun _ => child) around slot old new := by
  refine ⟨?_, changed.element, unmarked, changed.markers.1 unmarked⟩
  rw [atPlace]
  exact changed.before

/-- A form that the grammar can read is laid out anew when its spaces are changed. -/
theorem ChangedForm.relaid
    {inside : Interior}
    {old new : Form Tree}
    (sameEmpty : forall old new, child old new -> new.form.isEmpty = old.form.isEmpty)
    (changed : ChangedForm gap child old new)
    (fits : old.Fits) :
    RelaidForm styles (fun slot => gap slot.place) (fun _ => child) inside old new := by
  have values {place layout inside old new} (changed : ChangedContainer gap child place old new)
      (atPlace : layout.place = place) (fits : FitsContainer Form.isValue old) :
      RelaidContainer styles (fun slot => gap slot.place) (fun _ => child) layout inside old new :=
    changed.relaid sameEmpty (fun _ => Form.isEmpty_of_isValue) atPlace fits
  have words {place layout inside old new} (changed : ChangedContainer gap child place old new)
      (atPlace : layout.place = place) (fits : FitsContainer Form.isWords old) :
      RelaidContainer styles (fun slot => gap slot.place) (fun _ => child) layout inside old new :=
    changed.relaid sameEmpty (fun _ => Form.isEmpty_of_isWords) atPlace fits
  cases changed with
  | compilationUnit statements eof =>
      exact .compilationUnit
        (relaidStatements_of_changed statements rfl fun padded member => (fits.2.1 padded member).2) eof
  | block statements closing =>
      exact .block
        (relaidStatements_of_changed statements rfl fun padded member => (fits.1 padded member).2) closing
  | conditional condition consequence alternative =>
      exact .conditional condition (consequence.relaid rfl fits.2.1.2) alternative
  | otherwise body => exact .otherwise (body.relaid rfl fits.2)
  | returns value => exact .returns value
  | assignment target value => exact .assignment target (value.relaid rfl fits.2.2.1)
  | binary left before same markers right =>
      exact .binary rfl same fits.2.2.1 (markers.1 fits.2.2.1) left before right
  | identifier => exact .identifier
  | literal => exact .literal
  | fieldAccess target name => exact .fieldAccess target (name.relaid rfl fits.2.2.1)
  | call receiver name list =>
      cases receiver with
      | none => exact .plainCall name (values list rfl fits.2.2.1)
      | some receiver => exact .call rfl (receiver.relaid rfl fits.1.2) name (values list rfl fits.2.2.1)
  | declaration returnType name list body =>
      exact .declaration returnType name (words list rfl fits.2.2.1) body
  | parentheses inner => exact .parentheses (inner.relaid rfl fits.2)
  | collection list => exact .collection (values list rfl fits.2.1)
  | empty => exact .empty
  | unknown => exact .unknown

end Forms

/-! ## Trees -/

/-- What relates changed nodes, and their children, relates changed trees. -/
theorem changed_of_nodes
    {styles : Styles}
    {gap : SpacePlace -> Space -> Space -> Prop}
    {old new : Tree}
    (child : Tree -> Tree -> Prop)
    (nodes : forall old new, child old new -> ChangedNode gap child old new)
    (related : child old new) :
    Changed styles gap old new := by
  intro around
  refine ⟨fun _ => child, fun around old new related => ?_, related⟩
  have node := nodes old new related
  exact ⟨node.leading, node.unmarked, node.markers.1 node.unmarked,
    node.form.relaid (fun old new related => (nodes old new related).form.isEmpty_eq) node.fits⟩

end Format
end Lossless
