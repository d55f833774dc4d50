import Lossless.Proofs.Format.Regaps
import Lossless.Proofs.Java.Numbered
import Lossless.Proofs.Layout.Changed

/-!
# Trees that are indented anew

The indentation moves what follows a line break to the column of its slot, in every tree, whether it looks as if it
had been read from a text or not. `Reindented styles around old new` says what becomes of a tree with given
surroundings. Everything but the columns of aligned elements follows from the tree and its surroundings: below the
first element of a list that aligns its elements, the others go to a column that is measured, and not told here.
-/

namespace Lossless
namespace Format

open Java Indents

/-! ## Columns -/

namespace Surroundings

variable (styles : Styles)

/-- The column of the line inside a node; a whole unit starts in the first one. -/
def lineInside
    (around : Surroundings)
    (leading : Space)
    (form : Form Tree) : Nat :=
  if form.isUnit then 0
  else if leading.containsNewline then (around.slot styles form).column
  else around.line

/-- What is inside a node, a whole unit included. -/
def inside
    (around : Surroundings)
    (leading : Space)
    (form : Form Tree) : Interior :=
  let line := around.lineInside styles leading form
  ⟨line, nestingOf styles.indents form, around.chain.getD (line + styles.indents.continuationIndent)⟩

/-- The space before a node, indented. -/
def indented
    (around : Surroundings)
    (leading : Space)
    (form : Form Tree) : Space :=
  if form.isUnit then Exact.indentTo styles.indents 0 (leading.withWhitespace [])
  else Exact.indentTo styles.indents (around.slot styles form).column leading

variable {styles} {around : Surroundings} {leading : Space} {form : Form Tree}

theorem inside_of_isInner (isInner : form.isUnit = false) :
    around.inside styles leading form = around.interior styles leading form := by
  rw [inside, interior, lineInside, isInner]
  rfl

theorem indented_of_isInner (isInner : form.isUnit = false) :
    around.indented styles leading form = Exact.indentTo styles.indents (around.slot styles form).column leading := by
  rw [indented, isInner]
  rfl

end Surroundings

namespace Interior

/-- The column of a space between two parts. -/
def between
    (style : IndentStyle)
    (inside : Interior) : Nat :=
  Exact.columnFor style inside.line inside.nesting

/-- The surroundings of an element to which a list gives a column. -/
def listed
    (inside : Interior)
    (column : Nat) : Surroundings :=
  { inside.part with element := some column }

end Interior

/-! ## Layers -/

/-- The columns that the first element of a list, before and after it is indented, can set for the others. -/
abbrev Measure := ListColumns -> Tree -> Tree -> Nat -> Prop

/-- Nothing is told of the column that a first element sets. -/
def untold : Measure := fun _ _ _ _ => True

section Layers

variable (styles : Styles)
variable (measured : Measure)
variable (child : Surroundings -> Tree -> Tree -> Prop)

/-- An element with the space after it moved to a column. -/
structure ReindentedPadded
    (around : Surroundings)
    (column : Nat)
    (old new : RightPadded Tree) : Prop where
  element : child around old.element new.element
  after : new.after = Exact.indentTo styles.indents column old.after
  markers : new.markers = old.markers

/-- An operand with the space before it moved to a column. -/
structure ReindentedOperand
    (around : Surroundings)
    (column : Nat)
    (old new : LeftPadded Tree) : Prop where
  before : new.before = Exact.indentTo styles.indents column old.before
  element : child around old.element new.element
  markers : new.markers = old.markers

/-- Elements that go to the column that is given to them; the first one can set that of the others. -/
inductive ReindentedElements
    (inside : Interior)
    (columns : ListColumns) :
    Bool -> Nat -> List (RightPadded Tree) -> List (RightPadded Tree) -> Prop
  | nil {isFirst : Bool} {target : Nat} : ReindentedElements inside columns isFirst target [] []
  | cons {isFirst : Bool} {target next : Nat} {padded : RightPadded Tree} {element : Tree}
      {rest rest' : List (RightPadded Tree)} :
      child (inside.listed target) padded.element element ->
        ((isFirst && columns.aligns) = false -> next = target) ->
        ((isFirst && columns.aligns) = true -> measured columns padded.element element next) ->
        ReindentedElements inside columns false next rest rest' ->
          ReindentedElements inside columns isFirst target (padded :: rest)
            (Exact.indentAfter styles.indents columns next rest.isEmpty element padded :: rest')

/-- A delimited list inside a node. -/
structure ReindentedList
    (inside : Interior)
    (place : ContainerPlace)
    (old new : Container Tree) : Prop where
  before : new.before = Exact.indentTo styles.indents (inside.between styles.indents) old.before
  padded :
    let columns := Exact.listColumns styles.indents inside.line place
    ReindentedElements styles measured child inside columns true columns.wrapped old.padded new.padded
  markers : new.markers = old.markers

/-- Forms of one kind with the same tokens, whose lines are in the columns that follow from what is inside the node. -/
inductive ReindentedForm (inside : Interior) : Form Tree -> Form Tree -> Prop
  | compilationUnit {dialect source statements statements' eof} :
      List.Forall₂ (ReindentedPadded styles child inside.statement inside.line) statements statements' ->
        ReindentedForm inside (.compilationUnit dialect source statements eof)
          (.compilationUnit dialect source statements' (Exact.indentTo styles.indents inside.line eof))
  | block {statements statements' closing} :
      List.Forall₂ (ReindentedPadded styles child inside.statement inside.line) statements statements' ->
        ReindentedForm inside (.block statements closing)
          (.block statements' (Exact.indentTo styles.indents inside.line closing))
  | conditional {condition condition' consequence consequence' alternative alternative'} :
      child inside.part condition condition' ->
        ReindentedPadded styles child inside.part inside.line consequence consequence' ->
        Option.Rel (child inside.part) alternative alternative' ->
          ReindentedForm inside (.conditional condition consequence alternative)
            (.conditional condition' consequence' alternative')
  | otherwise {body body'} :
      ReindentedPadded styles child inside.part inside.line body body' ->
        ReindentedForm inside (.otherwise body) (.otherwise body')
  | returns {value value'} :
      Option.Rel (child inside.part) value value' ->
        ReindentedForm inside (.returns value) (.returns value')
  | assignment {target target' value value' typeTag} :
      child inside.part target target' ->
        ReindentedOperand styles child inside.part (inside.between styles.indents) value value' ->
          ReindentedForm inside (.assignment target value typeTag) (.assignment target' value' typeTag)
  | binary {left left' right right' typeTag} {operator : LeftPadded Operator} :
      child inside.part left left' -> child inside.part right right' ->
        ReindentedForm inside (.binary left operator right typeTag)
          (.binary left'
            { operator with before := Exact.indentTo styles.indents (inside.between styles.indents) operator.before }
            right' typeTag)
  | identifier {name typeTag} :
      ReindentedForm inside (.identifier name typeTag) (.identifier name typeTag)
  | literal {source typeTag} :
      ReindentedForm inside (.literal source typeTag) (.literal source typeTag)
  | fieldAccess {target target' name name' typeTag} :
      child inside.part target target' ->
        ReindentedOperand styles child inside.part (inside.between styles.indents) name name' ->
          ReindentedForm inside (.fieldAccess target name typeTag) (.fieldAccess target' name' typeTag)
  | plainCall {name name' list list' typeTag} :
      child inside.part name name' ->
        ReindentedList styles measured child inside .methodInvocationArguments list list' ->
          ReindentedForm inside (.call none name list typeTag) (.call none name' list' typeTag)
  | call {receiver receiver' name name' list list' typeTag} :
      ReindentedPadded styles child inside.receiver inside.chain receiver receiver' ->
        child (inside.afterReceiver receiver.after).part name name' ->
        ReindentedList styles measured child (inside.afterReceiver receiver.after) .methodInvocationArguments list list' ->
          ReindentedForm inside (.call (some receiver) name list typeTag)
            (.call (some receiver') name' list' typeTag)
  | declaration {returnType returnType' name name' list list' body body'} :
      Option.Rel (child inside.part) returnType returnType' -> child inside.part name name' ->
        ReindentedList styles measured child inside .methodDeclarationParameters list list' ->
        Option.Rel (child inside.part) body body' ->
          ReindentedForm inside (.declaration returnType name list body)
            (.declaration returnType' name' list' body')
  | parentheses {inner inner'} :
      ReindentedPadded styles child inside.part inside.line inner inner' ->
        ReindentedForm inside (.parentheses inner) (.parentheses inner')
  | collection {kind list list' typeTag} :
      ReindentedList styles measured child inside .collectionElements list list' ->
        ReindentedForm inside (.collection kind list typeTag) (.collection kind list' typeTag)
  | empty : ReindentedForm inside .empty .empty
  | unknown {text} : ReindentedForm inside (.unknown text) (.unknown text)

/-- A node with the space before it indented, and its parts. -/
def ReindentedNode
    (around : Surroundings)
    (old new : Tree) : Prop :=
  ∃ form, ReindentedForm styles measured child (around.inside styles old.leading old.form) old.form form ∧
    new = old.revise (around.indented styles old.leading old.form) old.markers form

end Layers

/-! ## Trees -/

/--
The second tree is the first one, indented as its surroundings tell. This is the largest relation that relates the
parts of what it relates.
-/
def Reindented
    (styles : Styles)
    (around : Surroundings)
    (old new : Tree) : Prop :=
  ∃ relation : Surroundings -> Tree -> Tree -> Prop,
    (forall around old new, relation around old new -> ReindentedNode styles untold relation around old new) ∧
      relation around old new

section Mono

variable {styles : Styles} {measured looser : Measure}
variable {child weaker : Surroundings -> Tree -> Tree -> Prop}
variable (loosens : forall columns old new next, measured columns old new next -> looser columns old new next)
variable (implies : forall around old new, child around old new -> weaker around old new)

include implies

theorem ReindentedPadded.mono
    {around : Surroundings}
    {column : Nat}
    {old new : RightPadded Tree}
    (related : ReindentedPadded styles child around column old new) :
    ReindentedPadded styles weaker around column old new :=
  ⟨implies _ _ _ related.element, related.after, related.markers⟩

theorem ReindentedOperand.mono
    {around : Surroundings}
    {column : Nat}
    {old new : LeftPadded Tree}
    (related : ReindentedOperand styles child around column old new) :
    ReindentedOperand styles weaker around column old new :=
  ⟨related.before, implies _ _ _ related.element, related.markers⟩

include loosens

theorem ReindentedElements.mono
    {inside : Interior}
    {columns : ListColumns}
    {isFirst : Bool}
    {target : Nat}
    {old new : List (RightPadded Tree)}
    (related : ReindentedElements styles measured child inside columns isFirst target old new) :
    ReindentedElements styles looser weaker inside columns isFirst target old new := by
  induction related with
  | nil => exact .nil
  | cons element keeps sets _ ih => exact .cons (implies _ _ _ element) keeps (fun first => loosens _ _ _ _ (sets first)) ih

theorem ReindentedList.mono
    {inside : Interior}
    {place : ContainerPlace}
    {old new : Container Tree}
    (related : ReindentedList styles measured child inside place old new) :
    ReindentedList styles looser weaker inside place old new :=
  ⟨related.before, related.padded.mono loosens implies, related.markers⟩

omit loosens in
theorem weakensAt (olds news : List Tree) : WeakensAt child weaker olds news :=
  fun old new _ around => implies around old new

theorem ReindentedForm.mono
    {inside : Interior}
    {old new : Form Tree}
    (related : ReindentedForm styles measured child inside old new) :
    ReindentedForm styles looser weaker inside old new := by
  cases related with
  | compilationUnit statements => exact .compilationUnit (statements.imp fun _ _ first => first.mono implies)
  | block statements => exact .block (statements.imp fun _ _ first => first.mono implies)
  | conditional condition consequence alternative =>
      exact .conditional (implies _ _ _ condition) (consequence.mono implies)
        (relaidOption_mono (weakensAt implies _ _) alternative)
  | otherwise body => exact .otherwise (body.mono implies)
  | returns value => exact .returns (relaidOption_mono (weakensAt implies _ _) value)
  | assignment target value => exact .assignment (implies _ _ _ target) (value.mono implies)
  | binary left right => exact .binary (implies _ _ _ left) (implies _ _ _ right)
  | identifier => exact .identifier
  | literal => exact .literal
  | fieldAccess target name => exact .fieldAccess (implies _ _ _ target) (name.mono implies)
  | plainCall name list => exact .plainCall (implies _ _ _ name) (list.mono loosens implies)
  | call receiver name list => exact .call (receiver.mono implies) (implies _ _ _ name) (list.mono loosens implies)
  | declaration returnType name list body =>
      exact .declaration (relaidOption_mono (weakensAt implies _ _) returnType) (implies _ _ _ name)
        (list.mono loosens implies) (relaidOption_mono (weakensAt implies _ _) body)
  | parentheses inner => exact .parentheses (inner.mono implies)
  | collection list => exact .collection (list.mono loosens implies)
  | empty => exact .empty
  | unknown => exact .unknown

theorem ReindentedNode.mono
    {around : Surroundings}
    {old new : Tree}
    (related : ReindentedNode styles measured child around old new) :
    ReindentedNode styles looser weaker around old new := by
  obtain ⟨form, related, atNew⟩ := related
  exact ⟨form, related.mono loosens implies, atNew⟩

end Mono

/-! ## Kinds -/

section Kinds

variable {styles : Styles} {measured : Measure} {child : Surroundings -> Tree -> Tree -> Prop} {inside : Interior}
  {old new : Form Tree}

theorem ReindentedForm.isUnit_eq (related : ReindentedForm styles measured child inside old new) :
    new.isUnit = old.isUnit := by
  cases related <;> rfl

/-- The slot before a node depends on the kind of the node alone. -/
theorem ReindentedForm.slot_eq
    (related : ReindentedForm styles measured child inside old new)
    (around : Surroundings) :
    around.slot styles new = around.slot styles old := by
  cases related <;> rfl

theorem ReindentedForm.nestingOf_eq (related : ReindentedForm styles measured child inside old new) :
    nestingOf styles.indents new = nestingOf styles.indents old := by
  cases related <;> rfl

end Kinds

/-! ## Children -/

section Children

variable {styles : Styles} {measured : Measure} {child : Surroundings -> Tree -> Tree -> Prop} {inside : Interior}

theorem forall₂_elements
    {around : Surroundings}
    {column : Nat}
    {old new : List (RightPadded Tree)}
    (related : List.Forall₂ (ReindentedPadded styles child around column) old new) :
    List.Forall₂ (child around) (RightPadded.elements old) (RightPadded.elements new) :=
  List.forall₂_map_left_iff.2 (List.forall₂_map_right_iff.2 (related.imp fun _ _ first => first.element))

theorem ReindentedElements.forall₂
    {columns : ListColumns}
    {isFirst : Bool}
    {target : Nat}
    {old new : List (RightPadded Tree)}
    (related : ReindentedElements styles measured child inside columns isFirst target old new) :
    List.Forall₂ (RelatedSomewhere child) (RightPadded.elements old) (RightPadded.elements new) := by
  induction related with
  | nil => exact .nil
  | cons element _ _ _ ih => exact .cons ⟨_, element⟩ ih

/-- The children of a form that is indented are those of the form before, one by one. -/
theorem ReindentedForm.children
    {old new : Form Tree}
    (related : ReindentedForm styles measured child inside old new) :
    List.Forall₂ (RelatedSomewhere child) old.children new.children := by
  cases related with
  | compilationUnit statements => exact forall₂_somewhere (forall₂_elements statements)
  | block statements => exact forall₂_somewhere (forall₂_elements statements)
  | conditional condition consequence alternative =>
      exact .cons ⟨_, condition⟩ (.cons ⟨_, consequence.element⟩ (forall₂_somewhere (forall₂_toList alternative)))
  | otherwise body => exact .cons ⟨_, body.element⟩ .nil
  | returns value => exact forall₂_somewhere (forall₂_toList value)
  | assignment target value => exact .cons ⟨_, target⟩ (.cons ⟨_, value.element⟩ .nil)
  | binary left right => exact .cons ⟨_, left⟩ (.cons ⟨_, right⟩ .nil)
  | identifier => exact .nil
  | literal => exact .nil
  | fieldAccess target name => exact .cons ⟨_, target⟩ (.cons ⟨_, name.element⟩ .nil)
  | plainCall name list => exact .cons ⟨_, name⟩ list.padded.forall₂
  | call receiver name list => exact .cons ⟨_, receiver.element⟩ (.cons ⟨_, name⟩ list.padded.forall₂)
  | declaration returnType name list body =>
      exact List.rel_append
        (List.rel_append (forall₂_somewhere (forall₂_toList returnType)) (.cons ⟨_, name⟩ list.padded.forall₂))
        (forall₂_somewhere (forall₂_toList body))
  | parentheses inner => exact .cons ⟨_, inner.element⟩ .nil
  | collection list => exact list.padded.forall₂
  | empty => exact .nil
  | unknown => exact .nil

end Children

section Trees

variable {styles : Styles} {around : Surroundings} {old new : Tree}

/-- Trees are related when their spaces and parts are. -/
theorem reindented_iff :
    Reindented styles around old new ↔ ReindentedNode styles untold (Reindented styles) around old new := by
  constructor
  · rintro ⟨relation, closed, related⟩
    exact (closed around old new related).mono (fun _ _ _ _ => id) fun _ _ _ below => ⟨relation, closed, below⟩
  · intro related
    refine ⟨ReindentedNode styles untold (Reindented styles), fun around old new related => ?_, related⟩
    refine related.mono (fun _ _ _ _ => id) fun _ _ _ below => ?_
    obtain ⟨relation, closed, below⟩ := below
    exact (closed _ _ _ below).mono (fun _ _ _ _ => id) fun _ _ _ further => ⟨relation, closed, further⟩

theorem Reindented.leading (related : Reindented styles around old new) :
    new.leading = around.indented styles old.leading old.form := by
  obtain ⟨form, -, rfl⟩ := reindented_iff.1 related
  exact Tree.leading_revise ..

theorem Reindented.id_eq (related : Reindented styles around old new) : new.id = old.id := by
  obtain ⟨form, -, rfl⟩ := reindented_iff.1 related
  exact Tree.id_revise ..

theorem Reindented.markers (related : Reindented styles around old new) : new.markers = old.markers := by
  obtain ⟨form, -, rfl⟩ := reindented_iff.1 related
  exact Tree.markers_revise ..

theorem Reindented.form (related : Reindented styles around old new) :
    ReindentedForm styles untold (Reindented styles) (around.inside styles old.leading old.form) old.form new.form := by
  obtain ⟨form, parts, rfl⟩ := reindented_iff.1 related
  rwa [Tree.form_revise]

end Trees

/-! ## Gaps -/

section Gaps

variable {styles : Styles} {gap : SpacePlace -> Space -> Space -> Prop}
variable (stays : forall place space, gap place space space)
variable (moves : forall place column space, gap place space (Exact.indentTo styles.indents column space))

include stays moves

section Parts

variable {measured : Measure} {child : Surroundings -> Tree -> Tree -> Prop} {closes : Tree -> Tree -> Prop} {view : View}
  {inside : Interior}

theorem ReindentedPadded.walked
    {around : Surroundings}
    {column : Nat}
    {old new : RightPadded Tree}
    (related : ReindentedPadded styles child around column old new)
    (place : ElementPlace) :
    WalkedElement (regapping gap (RelatedSomewhere child) closes) place view old view new := by
  refine @WalkedElement.mk _ place view view view view _ _ _ _ _ _ ⟨_, related.element⟩ ?_ ?_
  · rw [related.after]
    exact moves ..
  · rw [related.markers]
    exact .refl stays _

theorem walked_of_reindented
    {around : Surroundings}
    {column : Nat}
    {old new : List (RightPadded Tree)}
    (related : List.Forall₂ (ReindentedPadded styles child around column) old new)
    (place : ElementPlace) :
    WalkedElements (regapping gap (RelatedSomewhere child) closes) place view old view new := by
  induction related with
  | nil => exact .nil
  | cons first _ ih => exact .cons (first.walked stays moves place) ih

theorem ReindentedOperand.walked
    {around : Surroundings}
    {column : Nat}
    {old new : LeftPadded Tree}
    (related : ReindentedOperand styles child around column old new)
    (place : OperandPlace) :
    WalkedOperand (regapping gap (RelatedSomewhere child) closes) place view old view new := by
  refine @WalkedOperand.mk _ place view view view view _ _ _ _ _ _ ?_ ⟨_, related.element⟩ ?_
  · rw [related.before]
    exact moves ..
  · rw [related.markers]
    exact .refl stays _

theorem ReindentedElements.regapped
    {columns : ListColumns}
    {isFirst : Bool}
    {target : Nat}
    {old new : List (RightPadded Tree)}
    (related : ReindentedElements styles measured child inside columns isFirst target old new)
    (place : ElementPlace) :
    List.Forall₂ (RegappedPadded gap (RelatedSomewhere child) place) old new := by
  induction related with
  | nil => exact .nil
  | @cons _ _ next padded element rest _ related _ _ _ ih =>
      refine .cons ⟨⟨_, related⟩, moves .., ?_⟩ ih
      change RegappedMarkers gap padded.markers (if rest.isEmpty then _ else _)
      split
      · exact regappedMarkers_updateTrailingComma stays (moves _ _) _
      · exact .refl stays _

theorem ReindentedList.walked
    {place : ContainerPlace}
    {old new : Container Tree}
    (related : ReindentedList styles measured child inside place old new) :
    (regapping gap (RelatedSomewhere child) closes).list place view old view new := by
  refine ⟨?_, related.padded.regapped stays moves place.element, ?_⟩
  · rw [related.before]
    exact moves ..
  · rw [related.markers]
    exact .refl stays _

omit stays moves in
theorem walked_of_rel
    {around : Surroundings}
    {old new : Option Tree}
    (related : Option.Rel (child around) old new) :
    WalkedOption (regapping gap (RelatedSomewhere child) closes).child view old view new := by
  cases related with
  | none => exact .none
  | some related => exact .some ⟨_, related⟩

/-- What is indented differs in its gaps alone. -/
theorem ReindentedForm.walked
    {old new : Form Tree}
    (related : ReindentedForm styles measured child inside old new) :
    WalkedForm (regapping gap (RelatedSomewhere child) closes) view old view new := by
  cases related with
  | compilationUnit statements =>
      exact .compilationUnit (walked_of_reindented stays moves statements _) (moves ..)
  | block statements => exact .block (walked_of_reindented stays moves statements _) (moves ..)
  | conditional condition consequence alternative =>
      exact .conditional ⟨_, condition⟩ (consequence.walked stays moves _)
        (walked_of_rel alternative)
  | otherwise body => exact .otherwise (body.walked stays moves _)
  | returns value => exact .returns (walked_of_rel value)
  | assignment target value => exact .assignment ⟨_, target⟩ (value.walked stays moves _)
  | binary left right =>
      have operator {before before' : Space} {operator : Operator} {markers : Markers Space}
          (moved : before' = Exact.indentTo styles.indents (inside.between styles.indents) before) :
          WalkedOperator (regapping gap (RelatedSomewhere child) closes) view ⟨before, operator, markers⟩ view
            ⟨before', operator, markers⟩ :=
        @WalkedOperator.mk _ view view view _ _ _ _ _ (moved ▸ moves ..) (.refl stays _)
      exact .binary ⟨_, left⟩ (operator rfl) ⟨_, right⟩
  | identifier => exact .identifier
  | literal => exact .literal
  | fieldAccess target name => exact .fieldAccess ⟨_, target⟩ (name.walked stays moves _)
  | plainCall name list => exact .call .none ⟨_, name⟩ (list.walked stays moves)
  | call receiver name list =>
      exact .call (.some (receiver.walked stays moves _)) ⟨_, name⟩
        (list.walked stays moves)
  | declaration returnType name list body =>
      exact .declaration (walked_of_rel returnType) ⟨_, name⟩
        (list.walked stays moves) (walked_of_rel body)
  | parentheses inner => exact .parentheses (inner.walked stays moves _)
  | collection list => exact .collection (list.walked stays moves)
  | empty => exact .empty
  | unknown => exact .unknown

end Parts

/-- A tree in which nothing stands before units differs in its gaps alone once it is indented. -/
theorem Reindented.regapped
    {relates : Gaps -> Gaps -> Prop}
    (relation : IsGapRelation relates)
    (single : forall {place old new}, gap place old new -> relates [(place, old)] [(place, new)])
    {around : Surroundings}
    {old new : Tree}
    (blank : forall node, node ∈ old.nodes -> node.form.isUnit = true -> node.leading.isEmpty = true)
    (related : Reindented styles around old new) :
    Regapped relates old new := by
  induction old using Tree.induction generalizing around new with
  | step head form ih =>
      obtain ⟨formNew, parts, isNew⟩ := reindented_iff.1 related
      have leading : gap form.leadingPlace head.leading (around.indented styles head.leading form) := by
        rw [Surroundings.indented]
        split
        · next isUnit =>
            have none : head.leading.whitespace.isEmpty = true ∧ _ :=
              Bool.and_eq_true_iff.1 (blank _ (Tree.mem_nodes_self _) isUnit)
            rw [Space.withWhitespace, if_pos (List.isEmpty_iff.1 none.1).symm]
            exact moves ..
        · exact moves ..
      let view : View := ⟨.never, .root⟩
      have walkedParts : WalkedParts (regapping gap (RelatedSomewhere (Reindented styles)) Eq) view (.node head form) view _ :=
        @WalkedParts.mk _ view view view view _ _ _ _ leading (.refl stays _) (parts.walked stays moves)
      have walked : WalkedNode (regapping gap (RelatedSomewhere (Reindented styles)) Eq) view _ _ new :=
        @WalkedNode.walked _ view view view view _ _ _ rfl trivial walkedParts isNew.symm
      have children (child : Tree) (member : child ∈ form.children) (childNew : Tree)
          (somewhere : RelatedSomewhere (Reindented styles) child childNew) : Regapped relates child childNew :=
        ih child member (fun node below => blank node (Tree.mem_nodes_of_mem_children member below)) somewhere.choose_spec
      rcases regapped_of_walked relation single walked children with rfl | ⟨_, regapped, rfl⟩
      · exact .refl relation _
      · exact regapped.toRegapped

end Gaps

end Format
end Lossless
