import Lossless.Format.Spacing
import Lossless.Proofs.Format.Plain

/-!
# Spaces that are changed by their places

What the spacing pass and the indentation make of the spaces of a tree depends on where the spaces stand.
-/

namespace Lossless
namespace Format

open Java VisitM

/-!
## Spacing by slots

The spacing pass works on a node after its children: it spaces what the node governs, the gaps before its children
included. So what a visit makes of a child still has the old space before it where the parent decides, and what is
made of the whole tree changes every space by the blank that its slot wants.
-/

/-! ### What a cursor knows of the nodes around -/

section Cursors

variable {cursor : TreeCursor} {tree : Tree} {frames : List TreeFrame}

theorem map_top_ancestors (cursor : Cursor ν) : cursor.ancestors.map Cursor.top = cursor.frames := by
  obtain ⟨top, below⟩ := cursor
  change (Cursor.ancestors.cursorsFrom top below).map _ = top :: below
  induction below generalizing top with
  | nil => rfl
  | cons next rest ih => rw [Cursor.ancestors.cursorsFrom, List.map_cons, ih next]

theorem map_ancestors (cursor : Cursor ν) :
    cursor.ancestors.map (fun ancestor => ancestor.top.value) = cursor.values := by
  rw [Cursor.values, ← map_top_ancestors, List.map_map]
  rfl

/-- The node around a node is the closest one among the frames below it. -/
theorem parentTree?_eq (values : cursor.values = .tree tree :: frames) :
    cursor.parentTree?.bind Cursor.tree? = (nodesAmong frames).head?.bind FrameValue.tree? := by
  have tail : cursor.ancestors.tail.map (fun ancestor => ancestor.top.value) = frames := by
    rw [List.map_tail, map_ancestors, values, List.tail_cons]
  have isNode (value : TreeFrame) : (value.isRoot || value.tree?.isSome) = value.padding?.isNone := by
    cases value <;> rfl
  have closest : cursor.parentTree?.map (fun ancestor => ancestor.top.value) = (nodesAmong frames).head? := by
    rw [nodesAmong, List.head?_filter, ← tail, List.find?_map]
    unfold Cursor.parentTree? Cursor.tree?
    congr 2
    funext ancestor
    exact isNode ancestor.top.value
  rw [← closest]
  cases cursor.parentTree? <;> rfl

/-- Every unit among the frames is in the Java dialect. -/
def AreJava (frames : List TreeFrame) : Prop :=
  forall tree, .tree tree ∈ frames -> tree.isSource = true -> tree.dialect? = some .java

theorem areJava_nodesAmong (frames : List TreeFrame) : AreJava (nodesAmong frames) ↔ AreJava frames := by
  simp [AreJava, nodesAmong, FrameValue.padding?]

theorem AreJava.cons
    (areJava : AreJava frames)
    (fits : tree.form.Fits) :
    AreJava (.tree tree :: frames) := by
  intro other member isSource
  rcases List.mem_cons.1 member with same | later
  · obtain rfl := FrameValue.tree.inj same
    obtain ⟨head, form⟩ := other
    cases form with
    | compilationUnit => exact congrArg some fits.1
    | _ => cases isSource
  · exact areJava other later isSource

theorem enclosingDialect_eq (areJava : AreJava cursor.values) : enclosingDialect cursor = .java := by
  unfold enclosingDialect
  cases found : cursor.firstEnclosing? Tree.isSource with
  | none => rfl
  | some unit =>
      have member : unit ∈ cursor.trees := List.mem_of_find?_eq_some found
      obtain ⟨frame, isFrame, isTree⟩ := List.mem_filterMap.1 member
      have atFrame : frame = .tree unit := by
        cases frame <;> simp_all [FrameValue.tree?]
      rw [atFrame] at isFrame
      rw [Option.bind_some, areJava unit isFrame (List.find?_some found)]
      rfl

end Cursors

/-! ### Spaces -/

/-- What spacing makes of a space in a slot. -/
def respace
    (slot : Slot)
    (space : Space) : Space :=
  match slot.blank with
  | none => space
  | some wanted => updateSpace wanted space

/-- Spaces as spacing makes them. -/
abbrev Respaced
    (slot : Slot)
    (old new : Space) : Prop :=
  new = respace slot old

theorem respaced_of_blank
    {slot : Slot}
    {wanted : Bool}
    (blank : slot.blank = some wanted)
    (space : Space) :
    Respaced slot space (updateSpace wanted space) := by
  rw [Respaced, respace, blank]

theorem respaced_of_none
    {slot : Slot}
    (blank : slot.blank = none)
    {old new : Space}
    (same : new = old) :
    Respaced slot old new := by
  rw [Respaced, respace, blank, same]

/--
What is made of a child before the node around it spaces the gap before the child; `owned` says that a block would
be the body of that node.
-/
def Spaced
    (styles : Styles)
    (owned : Bool)
    (old new : Tree) : Prop :=
  forall around : Surroundings, around.blank = none -> (old.form.isBlock = true -> around.isBody = owned) ->
    Relaid styles Respaced around old new

section Trees

variable {styles : Styles} {owned : Bool} {around : Surroundings} {old new : Tree}

theorem Spaced.isEmpty_eq (spaced : Spaced styles owned old new) : new.form.isEmpty = old.form.isEmpty :=
  (spaced { Surroundings.root with isBody := owned } rfl fun _ => rfl).sameKind.isEmpty

/-- The gap before a node that is no block is spaced by the node around it. -/
theorem relaid_spaceBefore
    (related : Relaid styles Respaced around old new)
    (alone : around.blank = none)
    (noBlock : old.form.isBlock = false)
    (noOtherwise : old.form.isOtherwise = false)
    (wanted : Bool) :
    Relaid styles Respaced { around with blank := some wanted } old (spaceBefore wanted new) := by
  obtain ⟨leading, unmarked, unmarkedNew, form⟩ := relaid_iff.1 related
  have same : new.leading = old.leading := by
    rw [leading, respace, slot_blank alone noBlock noOtherwise]
  refine relaid_iff.2 ⟨?_, unmarked, ?_, ?_⟩
  · have blank : (Surroundings.slot styles { around with blank := some wanted } old.form).blank = some wanted := by
      cases atForm : old.form with
      | block => rw [atForm] at noBlock; cases noBlock
      | otherwise => rw [atForm] at noOtherwise; cases noOtherwise
      | _ => rfl
    rw [spaceBefore, Tree.withLeading, Tree.leading_revise, same]
    exact respaced_of_blank blank _
  · rwa [spaceBefore, Tree.withLeading, Tree.markers_revise]
  · rw [spaceBefore, Tree.withLeading, Tree.form_revise]
    exact form

end Trees

/-! ### Lists -/

section Lists

variable {styles : Styles} {owned : Bool} {inside : Interior} {layout : ListLayout}

/-- Before the node around it decides, a space is the old one. -/
abbrev Same
    (_ : Slot)
    (old new : Space) : Prop :=
  new = old

/-- The nodes are such that the space before them is governed by what is around. -/
def AreGoverned (trees : List Tree) : Prop :=
  forall tree, tree ∈ trees -> tree.form.isBlock = false ∧ tree.form.isOtherwise = false

theorem Spaced.element
    {old new : Tree}
    (spaced : Spaced styles owned old new)
    (governed : old.form.isBlock = false ∧ old.form.isOtherwise = false)
    (column : Nat)
    (blank : Bool) :
    Relaid styles Respaced (inside.element column blank) old (spaceBefore blank new) := by
  have related := spaced { inside.part with element := some column } rfl fun isBlock => by
    rw [governed.1] at isBlock
    cases isBlock
  exact relaid_spaceBefore related rfl governed.1 governed.2 blank

theorem toList_updateTrailingComma
    {change : Space -> Space}
    {markers : Markers Space}
    (unmarked : markers.toList = []) :
    (updateTrailingComma change markers).toList = [] := by
  rw [updateTrailingComma, unmarked]
  exact unmarked

/-- The space after the one trailing comma is changed. -/
theorem exists_updateTrailingComma
    (change : Space -> Space)
    {markers : Markers Space}
    {marker : Marker Space}
    {suffix : Space}
    (only : markers.toList = [marker])
    (isComma : marker.fact = .trailingComma suffix) :
    exists changed, (updateTrailingComma change markers).toList = [changed] ∧
      changed.fact = .trailingComma (change suffix) := by
  have found : markers.toList.find? (fun marker => marker.fact.trailingComma?.isSome) = some marker := by
    simp [only, isComma, Fact.trailingComma?]
  unfold updateTrailingComma
  rw [found]
  dsimp only
  rw [isComma]
  dsimp only
  split
  · next same => exact ⟨marker, only, by rw [isComma, same]⟩
  · refine ⟨marker.withFact (.trailingComma (change suffix)), ?_, rfl⟩
    simp [Marker.withFact, Markers.setByKind, Markers.computeByKind, only, Markers.changeFirst?, isComma, Fact.trailingComma?]

theorem hasTrailingComma_of_unmarked
    {padded : RightPadded Tree}
    (unmarked : padded.markers.toList = []) :
    hasTrailingComma padded = false := by
  simp [hasTrailingComma, Markers.findFirst?, unmarked]

theorem hasTrailingComma_of_comma
    {padded : RightPadded Tree}
    {marker : Marker Space}
    {suffix : Space}
    (only : padded.markers.toList = [marker])
    (isComma : marker.fact = .trailingComma suffix) :
    hasTrailingComma padded = true := by
  simp [hasTrailingComma, Markers.findFirst?, only, isComma, Fact.trailingComma?]

/-- The last element of a list, spaced. -/
theorem RelaidLast.respaced
    {blank : Bool}
    {around : Surroundings}
    {old new : RightPadded Tree}
    (related : RelaidLast Same (fun _ => Spaced styles owned) layout around old new)
    (governed : old.element.form.isBlock = false ∧ old.element.form.isOtherwise = false) :
    RelaidElements Respaced (Relaid styles Respaced) layout inside blank [old]
      (spaceElements layout.beside layout.spacing.within blank [new]) := by
  refine .last ?_
  cases related with
  | plain padded =>
      rw [if_neg (by simp [hasTrailingComma_of_unmarked padded.unmarkedNew]), padded.after]
      exact .plain ⟨padded.element.element governed _ _, respaced_of_blank rfl _, padded.unmarked,
        toList_updateTrailingComma padded.unmarkedNew⟩
  | comma element after only isComma onlyNew isCommaNew suffix =>
      rw [if_pos (hasTrailingComma_of_comma onlyNew isCommaNew), after]
      obtain ⟨changed, onlyChanged, isCommaChanged⟩ :=
        exists_updateTrailingComma (updateSpace layout.spacing.within) onlyNew isCommaNew
      rw [suffix] at isCommaChanged
      exact .comma (element.element governed _ _) (respaced_of_blank rfl _) only isComma onlyChanged isCommaChanged
        (respaced_of_blank rfl _)

theorem RelaidElements.respaced
    {blank : Bool}
    {olds news : List (RightPadded Tree)}
    (related : RelaidElements Same (fun _ => Spaced styles owned) layout inside blank olds news)
    (governed : AreGoverned (RightPadded.elements olds)) :
    RelaidElements Respaced (Relaid styles Respaced) layout inside blank olds
      (spaceElements layout.beside layout.spacing.within blank news) := by
  induction related with
  | last last => exact last.respaced (governed _ (List.mem_singleton_self _))
  | cons first others ih =>
      obtain ⟨here, later⟩ := List.forall_mem_cons.1 governed
      have notLast := others.ne_nil.2
      rw [spaceElements]
      · refine .cons ⟨first.element.element here _ _, ?_, first.unmarked, first.unmarkedNew⟩ (ih later)
        rw [first.after]
        exact respaced_of_blank rfl _
      · exact notLast

theorem isEmptyElement_eq (padded : RightPadded Tree) : isEmptyElement padded = padded.element.form.isEmpty := by
  unfold isEmptyElement
  cases padded.element.form <;> rfl

/-- Where a list has elements, they are spaced one by one. -/
theorem padded_spaceContainer
    {style : SpacingStyle}
    {spacing : ListSpacing}
    {list : Container Tree}
    (notEmpty : forall tree, tree ∈ list.elements -> tree.form.isEmpty = false) :
    (spaceContainer style spacing list).padded =
      spaceElements style.punctuation spacing.within spacing.within list.padded := by
  obtain ⟨before, padded, markers⟩ := list
  unfold spaceContainer
  dsimp only
  split
  · next only =>
      rw [isEmptyElement_eq, notEmpty _ (List.mem_singleton_self _), if_neg (by simp)]
  · rfl

/-- A form that can be an element of a list. -/
structure IsElement (form : Form Tree) : Prop where
  noBlock : form.isBlock = false
  noOtherwise : form.isOtherwise = false
  notEmpty : form.isEmpty = false

theorem isElement_of_isValue
    {form : Form Tree}
    (isValue : form.isValue = true) :
    IsElement form :=
  ⟨(Form.isBlock_of_isValue isValue).1, (Form.isBlock_of_isValue isValue).2, Form.isEmpty_of_isValue isValue⟩

theorem isElement_of_isWords
    {form : Form Tree}
    (isWords : form.isWords = true) :
    IsElement form :=
  ⟨(Form.isBlock_of_isWords isWords).1, (Form.isBlock_of_isWords isWords).2, Form.isEmpty_of_isWords isWords⟩

/-- What is made of elements is not empty. -/
theorem RelaidElements.notEmpty
    {gap : Slot -> Space -> Space -> Prop}
    {child : Surroundings -> Tree -> Tree -> Prop}
    {blank : Bool}
    {olds news : List (RightPadded Tree)}
    (related : RelaidElements gap child layout inside blank olds news)
    (same : forall around old new, child around old new -> new.form.isEmpty = old.form.isEmpty)
    (notEmpty : forall tree, tree ∈ RightPadded.elements olds -> tree.form.isEmpty = false) :
    forall tree, tree ∈ RightPadded.elements news -> tree.form.isEmpty = false := by
  intro tree member
  obtain ⟨before, isOld, around, child⟩ := exists_of_forall₂ related.children member
  rw [same around before tree child]
  exact notEmpty before isOld

theorem not_isNone_of_notEmpty
    {padded : List (RightPadded Tree)}
    (notEmpty : forall tree, tree ∈ RightPadded.elements padded -> tree.form.isEmpty = false) :
    ¬IsNone padded := by
  intro none
  match padded, none with
  | [only], none => cases (notEmpty _ (List.mem_singleton_self _)).symm.trans none.1

/-- A delimited list, spaced. -/
theorem RelaidContainer.respaced
    {test : Form Tree -> Bool}
    {old new : Container Tree}
    (related : RelaidContainer styles Same (fun _ => Spaced styles owned) layout inside old new)
    (beside : layout.beside = styles.spacing.punctuation)
    (kinds : forall form, test form = true -> IsElement form)
    (fits : FitsContainer test old) :
    RelaidContainer styles Respaced (Relaid styles Respaced) layout inside old
      (spaceContainer styles.spacing layout.spacing new) := by
  obtain ⟨before, olds, markers⟩ := old
  obtain ⟨before', news, markers'⟩ := new
  refine ⟨?_, related.unmarked, related.unmarkedNew, ?_⟩
  · obtain rfl := related.before
    exact respaced_of_blank rfl _
  · rcases related.padded with none | ⟨some, someNew, elements⟩
    · left
      cases none with
      | only isEmpty isEmptyNew padded =>
          have governed : Relaid styles Respaced (inside.element layout.columns.wrapped layout.spacing.withinEmpty) _ _ :=
            padded.element.element (by rw [isEmpty]; exact ⟨rfl, rfl⟩) _ _
          simp only [spaceContainer, isEmptyElement_eq, isEmptyNew, Form.isEmpty, if_true]
          refine .only isEmpty ?_ ⟨governed, respaced_of_none rfl padded.after, padded.unmarked, padded.unmarkedNew⟩
          rw [spaceBefore, Tree.withLeading, Tree.form_revise]
          exact isEmptyNew
    · right
      have all := forall_of_fitElements kinds (fits.2.resolve_left some)
      have spaced := elements.respaced fun tree member => ⟨(all tree member).noBlock, (all tree member).noOtherwise⟩
      have notEmpty := elements.notEmpty (fun _ _ _ spaced => spaced.isEmpty_eq) fun tree member =>
        (all tree member).notEmpty
      rw [padded_spaceContainer notEmpty, ← beside]
      refine ⟨some, not_isNone_of_notEmpty ?_, spaced⟩
      exact spaced.notEmpty (fun _ _ _ related => related.sameKind.isEmpty) fun tree member =>
        (all tree member).notEmpty

end Lists

/-! ### Nodes -/

section Nodes

variable {styles : Styles} {owned : Bool} {inside : Interior} {cursor : TreeCursor}

/-- A part before which nothing is governed. -/
theorem Spaced.part
    {around : Surroundings}
    {old new : Tree}
    (spaced : Spaced styles owned old new)
    (alone : around.blank = none)
    (isBody : around.isBody = owned) :
    Relaid styles Respaced around old new :=
  spaced around alone fun _ => isBody

theorem RelaidPadded.respaced
    {around : Surroundings}
    {slot : Slot}
    {old new : RightPadded Tree}
    (related : RelaidPadded Same (fun _ => Spaced styles owned) around slot old new)
    (alone : around.blank = none)
    (isBody : old.element.form.isBlock = true -> around.isBody = owned)
    (blank : slot.blank = none) :
    RelaidPadded Respaced (Relaid styles Respaced) around slot old new :=
  ⟨related.element around alone isBody, respaced_of_none blank related.after, related.unmarked, related.unmarkedNew⟩

theorem RelaidStatements.respaced
    {around : Surroundings}
    {slot : Slot}
    {olds news : List (RightPadded Tree)}
    (related : RelaidStatements Same (fun _ => Spaced styles owned) around slot olds news)
    (alone : around.blank = none)
    (isBody : around.isBody = owned)
    (blank : slot.blank = none) :
    RelaidStatements Respaced (Relaid styles Respaced) around slot olds news := by
  induction related with
  | nil => exact .nil
  | cons first _ ih => exact .cons (first.respaced alone (fun _ => isBody) blank) ih

theorem respacedOption
    {around : Surroundings}
    {old new : Option Tree}
    (related : Option.Rel (Spaced styles owned) old new)
    (alone : around.blank = none)
    (isBody : forall tree, old = some tree -> tree.form.isBlock = true -> around.isBody = owned) :
    Option.Rel (Relaid styles Respaced around) old new := by
  cases related with
  | none => exact .none
  | some spaced => exact .some (spaced around alone (isBody _ rfl))

/-- A part that is no block, and before which nothing is governed. -/
theorem Spaced.value
    {old new : Tree}
    (spaced : Spaced styles owned old new)
    (noBlock : old.form.isBlock = false) :
    Relaid styles Respaced inside.part old new :=
  spaced inside.part rfl fun isBlock => by
    rw [noBlock] at isBlock
    cases isBlock

/-- A part that the node spaces the gap before. -/
theorem Spaced.before
    {old new : Tree}
    (spaced : Spaced styles owned old new)
    (kind : IsElement old.form)
    (wanted : Bool) :
    Relaid styles Respaced (inside.spaced wanted) old (spaceBefore wanted new) :=
  relaid_spaceBefore (spaced.value kind.noBlock) rfl kind.noBlock kind.noOtherwise wanted

theorem isParentheses_eq (tree : Tree) : isParentheses tree = tree.form.isParentheses := by
  unfold isParentheses
  cases tree.form <;> rfl

/-- The form of a node whose parts have been visited, once the node has been spaced. -/
theorem RelaidForm.respaced
    {old : Form Tree}
    {new : Tree}
    (related : RelaidForm styles Same (fun _ => Spaced styles (ownsBody old)) inside old new.form)
    (fits : old.Fits)
    (isJava : enclosingDialect cursor = .java) :
    RelaidForm styles Respaced (Relaid styles Respaced) inside old
      (spaceNode styles.spacing cursor new).form := by
  obtain ⟨head, form⟩ := new
  rw [Tree.form_node] at related
  cases related with
  | compilationUnit statements eof =>
      exact .compilationUnit (statements.respaced rfl rfl rfl) (respaced_of_none rfl eof)
  | block statements closing =>
      have spaced : RelaidForm styles Respaced (Relaid styles Respaced) inside (.block _ _) (.block _ _) :=
        .block (statements.respaced rfl rfl rfl) (respaced_of_none rfl closing)
      unfold spaceNode
      dsimp only [Tree.form_node]
      split
      · rw [Tree.withLeading, Tree.form_revise]
        exact spaced
      · exact spaced
  | conditional condition consequence alternative =>
      have isValue := isElement_of_isValue (Form.isValue_of_isParentheses fits.1)
      have asPart : Relaid styles Respaced inside.part _ _ := condition.value isValue.noBlock
      have isNode : isParentheses _ = true :=
        (isParentheses_eq _).trans (asPart.sameKind.isParentheses.trans fits.1)
      unfold spaceNode
      dsimp only [Tree.form_node]
      rw [if_pos (by simp [isJava, isNode]), Tree.withForm, Tree.form_revise]
      exact .conditional (condition.before isValue _) (consequence.respaced rfl (fun _ => rfl) rfl)
        (respacedOption alternative rfl fun _ _ _ => rfl)
  | otherwise body =>
      unfold spaceNode
      dsimp only [Tree.form_node]
      rw [if_pos isJava, Tree.withLeading, Tree.form_revise]
      exact .otherwise (body.respaced rfl (fun _ => rfl) rfl)
  | returns value =>
      refine .returns (respacedOption value rfl fun present isPresent isBlock => ?_)
      rw [(isElement_of_isValue (fits present isPresent)).noBlock] at isBlock
      cases isBlock
  | assignment target value =>
      unfold spaceNode
      dsimp only [Tree.form_node]
      rw [Tree.withForm, Tree.form_revise]
      refine .assignment (target.value (isElement_of_isValue (Form.isValue_of_isOperand fits.1)).noBlock)
        ⟨?_, value.element.before (isElement_of_isValue fits.2.1) _, value.unmarked, value.unmarkedNew⟩
      rw [value.before]
      exact respaced_of_blank rfl _
  | binary around same unmarked unmarkedNew left before right =>
      unfold spaceNode
      dsimp only [Tree.form_node]
      rw [Tree.withForm, Tree.form_revise]
      obtain rfl := around.trans (congrArg _ same)
      refine .binary (congrArg _ same.symm) same unmarked unmarkedNew
        (left.value (isElement_of_isValue (Form.isValue_of_isOperand fits.1.1)).noBlock) ?_
        (right.before (isElement_of_isValue (Form.isValue_of_isOperand fits.2.1.1)) _)
      rw [before]
      exact respaced_of_blank rfl _
  | identifier => exact .identifier
  | literal => exact .literal
  | fieldAccess target name =>
      have isChain := isElement_of_isValue (Form.isValue_of_isChain fits.1)
      have isName := isElement_of_isWords (Form.isWords_of_isIdentifier fits.2.1)
      exact .fieldAccess (target.value isChain.noBlock)
        ⟨respaced_of_none rfl name.before, name.element.value isName.noBlock, name.unmarked, name.unmarkedNew⟩
  | plainCall name list =>
      have isName := isElement_of_isWords (Form.isWords_of_isIdentifier fits.2.1)
      unfold spaceNode
      dsimp only [Tree.form_node]
      rw [Tree.withForm, Tree.form_revise]
      exact .plainCall (name.value isName.noBlock)
        (list.respaced rfl (fun _ => isElement_of_isValue) fits.2.2.1)
  | call behind receiver name list =>
      have isChain := isElement_of_isValue (Form.isValue_of_isChain fits.1.1)
      have isName := isElement_of_isWords (Form.isWords_of_isIdentifier fits.2.1)
      unfold spaceNode
      dsimp only [Tree.form_node]
      rw [Tree.withForm, Tree.form_revise]
      refine .call behind (receiver.respaced rfl (fun isBlock => ?_) rfl) (name.value isName.noBlock)
        (list.respaced rfl (fun _ => isElement_of_isValue) fits.2.2.1)
      rw [isChain.noBlock] at isBlock
      cases isBlock
  | declaration returnType name list body =>
      obtain ⟨-, isName, fitsList, -⟩ := fits
      unfold spaceNode
      dsimp only [Tree.form_node]
      rw [Tree.withForm, Tree.form_revise]
      exact .declaration (respacedOption returnType rfl fun _ _ _ => rfl)
        (name.value (isElement_of_isWords (Form.isWords_of_isIdentifier isName)).noBlock)
        (list.respaced rfl (fun _ => isElement_of_isWords) fitsList)
        (respacedOption body rfl fun _ _ _ => rfl)
  | parentheses inner =>
      refine .parentheses (inner.respaced rfl (fun isBlock => ?_) rfl)
      rw [(isElement_of_isValue fits.1).noBlock] at isBlock
      cases isBlock
  | collection list =>
      unfold spaceNode
      dsimp only [Tree.form_node]
      rw [Tree.withForm, Tree.form_revise]
      exact .collection (list.respaced rfl (fun _ => isElement_of_isValue) fits.2.1)
  | empty => exact .empty
  | unknown => exact .unknown

/-- A block is the body of the node around. -/
def ownsNode (frames : List TreeFrame) : Bool :=
  ((frames.head?.bind FrameValue.tree?).map Tree.form).any ownsBody

/-- The space before a node, once the node has been spaced. -/
theorem leading_spaceNode
    {around : Surroundings}
    {frames : List TreeFrame}
    {gap : Slot -> Space -> Space -> Prop}
    {child : Surroundings -> Tree -> Tree -> Prop}
    {old : Form Tree}
    {new : Tree}
    (related : RelaidForm styles gap child inside old new.form)
    (isJava : enclosingDialect cursor = .java)
    (owner : cursor.parentTree?.bind Cursor.tree? = frames.head?.bind FrameValue.tree?)
    (alone : around.blank = none)
    (isBody : old.isBlock = true -> around.isBody = ownsNode frames) :
    (spaceNode styles.spacing cursor new).leading = respace (around.slot styles old) new.leading := by
  obtain ⟨head, form⟩ := new
  rw [Tree.form_node] at related
  cases related with
  | block =>
      have owns := isBody rfl
      unfold spaceNode
      simp only [Tree.form_node, owner]
      rw [ownsNode] at owns
      rw [respace, Surroundings.slot]
      dsimp only
      rw [owns]
      split
      · rw [Tree.withLeading, Tree.leading_revise, isJava]
      · rfl
  | otherwise =>
      unfold spaceNode
      dsimp only [Tree.form_node]
      rw [if_pos isJava, Tree.withLeading, Tree.leading_revise]
      rfl
  | conditional =>
      unfold spaceNode
      dsimp only [Tree.form_node]
      rw [respace, slot_blank alone rfl rfl]
      split
      · rw [Tree.withForm, Tree.leading_revise]
      · rfl
  | _ =>
      rw [respace, slot_blank alone rfl rfl]
      unfold spaceNode
      first | rfl | exact Tree.leading_revise ..

/-- Spacing leaves the markers of a node alone, and the kind of the node. -/
theorem markers_spaceNode
    (style : SpacingStyle)
    (cursor : TreeCursor)
    (tree : Tree) :
    (spaceNode style cursor tree).markers = tree.markers ∧
      (spaceNode style cursor tree).form.isEmpty = tree.form.isEmpty := by
  obtain ⟨head, form⟩ := tree
  unfold spaceNode
  cases form <;> dsimp only [Tree.form_node] <;> try split
  all_goals simp [Tree.withForm, Tree.withLeading, Form.isEmpty]

end Nodes

/-! ### The pass -/

section Pass

variable {styles : Styles} {frames : List TreeFrame} {old middle tree : Tree}

/-- What the pass makes of a node among frames, given that it could be read. -/
def BecomesSpaced
    (styles : Styles)
    (frames : List TreeFrame)
    (old new : Tree) : Prop :=
  new.form.isEmpty = old.form.isEmpty ∧
    (AreJava frames -> old.IsPart -> Spaced styles (ownsNode frames) old new)

theorem ChangedParts.spaced
    {cursor : TreeCursor}
    (parts : ChangedParts (fun _ old new => new = old) (BecomesSpaced styles (.tree old :: nodesAmong frames)) old middle)
    (values : cursor.values = .tree old :: frames) :
    BecomesSpaced styles (nodesAmong frames) old (spaceNode styles.spacing cursor middle) := by
  obtain ⟨sameMarkers, sameEmpty⟩ := markers_spaceNode styles.spacing cursor middle
  refine ⟨sameEmpty.trans parts.form.isEmpty_eq, fun areJava part around alone isBody => ?_⟩
  have fits := part.canonical.root.fits
  have areJavaInside : AreJava (.tree old :: nodesAmong frames) := areJava.cons fits
  have isJava : enclosingDialect cursor = .java := by
    refine enclosingDialect_eq ?_
    rw [values]
    exact ((areJava_nodesAmong frames).1 areJava).cons fits
  have visited : RelaidForm styles Same (fun _ => Spaced styles (ownsBody old.form))
      (around.interior styles old.leading old.form) old.form middle.form :=
    (parts.form.relaid (fun _ _ related => related.1) fits).mono (fun _ _ _ => id)
      fun child _ member _ related => related.2 areJavaInside (part.canonical.part (List.of_mem_zip member).1)
  refine relaid_iff.2 ⟨?_, part.unmarked, ?_, visited.respaced fits isJava⟩
  · rw [leading_spaceNode visited isJava (parentTree?_eq values) alone isBody, parts.leading]
  · rw [sameMarkers]
    exact parts.markers.1 part.unmarked

/-- The spacing pass changes every space by the blank that its slot wants. -/
theorem spaces_relays
    (styles : Styles)
    (part : tree.IsPart)
    (isUnit : tree.form.isUnit = true) :
    exists new, (spaces styles.spacing).run none .root tree = .ok (some new) ∧
      Relaid styles Respaced .root tree new := by
  have walks : Visitor.Walks (spaces styles.spacing) (plainRelation _ (BecomesSpaced styles) _) :=
    ofNodes_walks_plain _
  obtain ⟨new, runs, -, spaced⟩ := Pass.exists_run walks (fun frames old middle new parts closed => by
    obtain ⟨cursor, values, rfl⟩ := closed
    exact parts.spaced values) tree
  refine ⟨new, runs, spaced (by simp [AreJava]) part .root rfl fun isBlock => ?_⟩
  cases atForm : tree.form <;> simp_all [Form.isUnit, Form.isBlock]

end Pass

/-!
## Spaces moved to columns

Which column the indentation moves a line to depends on the messages that it finds, and on what the tree prints as
where the elements of a list are aligned. Whatever the columns are, it changes the spaces of a tree by their places:
what follows a line break is moved to some column, and nothing else happens.
-/

/-- The space as it is before it is indented: nothing but comments stands before a unit. -/
def unindented
    (place : SpacePlace)
    (space : Space) : Space :=
  if place = .compilationUnitPrefix then space.withWhitespace [] else space

/-- What follows the space is moved to some column, or stays where it is. -/
def Moved
    (style : IndentStyle)
    (place : SpacePlace)
    (old new : Space) : Prop :=
  new = old ∨ exists column, new = Exact.indentTo style column (unindented place old)

namespace Indents

variable (style : IndentStyle)

/-! ### The hooks -/

theorem values_noteChain (cursor : TreeCursor) : (noteChain style cursor).values = cursor.values := by
  unfold noteChain
  split
  · rfl
  · exact Cursor.values_putMessageBelow ..

theorem values_spaceCursor
    (place : SpacePlace)
    (space : Space)
    (cursor : TreeCursor) :
    (spaceCursor style place space cursor).values = cursor.values := by
  have noted : (notedFor style place cursor).values = cursor.values := by
    unfold notedFor
    split
    · exact values_noteChain style cursor
    · rfl
  unfold spaceCursor wrappedCursor
  dsimp only
  split
  · split
    · split <;> exact noted
    · split <;> exact noted
  · rfl

theorem values_enteredCursor
    (tree : Tree)
    (cursor : TreeCursor) :
    (enteredCursor style tree cursor).values = cursor.values := by
  unfold enteredCursor
  split <;> rfl

theorem moved_indentedSpace
    (place : SpacePlace)
    (space : Space)
    (cursor : TreeCursor) :
    Moved style place space (indentedSpace style place space cursor) := by
  unfold indentedSpace Moved unindented
  split
  · exact .inr ⟨0, rfl⟩
  · split
    · exact .inr ⟨_, rfl⟩
    · exact .inl rfl

theorem visitSpace_moves
    (place : SpacePlace)
    (space : Space)
    (state : VisitState Tree PaddingFrame Unit Unit) :
    (Exact.visitSpace style place space).Yields state fun value left => state.stop = .never ->
      Kept (viewOf state) (viewOf left) ∧ Moved style place space value := by
  by_cases stopped : state.stop.isStopped = true
  · exact ⟨space, state, visitSpace_of_stopped style stopped place space, fun goesOn => ⟨.refl goesOn, .inl rfl⟩⟩
  · rw [Bool.not_eq_true] at stopped
    refine ⟨_, _, visitSpace_eq style stopped place space, fun goesOn => ⟨⟨goesOn, ?_⟩, ?_⟩⟩
    · exact values_spaceCursor style place space state.cursor
    · exact moved_indentedSpace style place space state.cursor

variable {style}

/-! ### Lists -/

theorem unmoved_markers (markers : Markers Space) : ChangedMarkers (Moved style) markers markers :=
  ⟨id, fun marker suffix only isComma => ⟨marker, suffix, only, isComma, .inl rfl⟩⟩

theorem moved_updateTrailingComma
    (column : Nat)
    (markers : Markers Space) :
    ChangedMarkers (Moved style) markers (updateTrailingComma (Exact.indentTo style column) markers) := by
  refine ⟨toList_updateTrailingComma, fun marker suffix only isComma => ?_⟩
  obtain ⟨changed, onlyChanged, isCommaChanged⟩ :=
    exists_updateTrailingComma (Exact.indentTo style column) only isComma
  exact ⟨changed, _, onlyChanged, isCommaChanged, .inr ⟨column, rfl⟩⟩

theorem after_ne_unitPrefix (place : ElementPlace) : place.after ≠ .compilationUnitPrefix := by
  cases place <;> simp [ElementPlace.after]

theorem moved_paddedAfter
    {child : Tree -> Tree -> Prop}
    {columns : ListColumns}
    {target : Nat}
    {isLast : Bool}
    {element : Tree}
    {padded : RightPadded Tree}
    (place : ElementPlace)
    (related : child padded.element element) :
    ChangedPadded (Moved style) child place padded
      (paddedAfter style columns target .never isLast element padded) := by
  rw [paddedAfter, if_neg (by simp [StopAfter.isStopped])]
  refine ⟨related, .inr ⟨if isLast && !hasTrailingComma padded then columns.enclosing else target, ?_⟩, ?_⟩
  · rw [unindented, if_neg (after_ne_unitPrefix place)]
    rfl
  · unfold Exact.indentAfter
    cases isLast
    · exact unmoved_markers _
    · exact moved_updateTrailingComma _ _

variable {child : List TreeFrame -> Tree -> Tree -> Prop}
variable {closes : List TreeFrame -> Tree -> Tree -> Prop}
variable {visit : Tree -> PassVisit (Option Tree)}

theorem visitElements_moves
    {place : ElementPlace}
    {columns : ListColumns}
    {list : List (RightPadded Tree)}
    (children : forall tree, tree ∈ RightPadded.elements list ->
      WalksTo (plainRelation (Moved style) child closes).child tree (visit tree))
    (isFirst : Bool)
    (target : Nat)
    (state : VisitState Tree PaddingFrame Unit Unit) :
    (Exact.visitElements style visit place columns isFirst target list).Yields state fun list' left =>
      state.stop = .never -> Kept (viewOf state) (viewOf left) ∧
        List.Forall₂ (ChangedPadded (Moved style) (child (nodesOf state.cursor)) place) list list' := by
  induction list generalizing isFirst target state with
  | nil => exact .pure fun goesOn => ⟨.refl goesOn, .nil⟩
  | cons padded rest ih =>
      obtain ⟨_, left, visited, element, rfl, related⟩ :=
        children padded.element (by simp [RightPadded.elements]) (elementState place target state)
      have later (next : Nat) := ih
        (fun tree member => children tree (List.mem_cons_of_mem _ member)) false next (state.returned left)
      refine visitElements_cons style visited ((later _).mono fun list' last others goesOn => ?_)
      obtain ⟨inside, atElement⟩ := related goesOn
      have entered : Kept ((viewOf state).entered (.padding (.element place))) (viewOf left) :=
        ⟨inside.goesOn, inside.values⟩
      have back : Kept (viewOf state) (viewOf (state.returned left)) := entered.returned
      obtain ⟨kept, changed⟩ := others back.goesOn
      have stop : left.stop = .never := inside.goesOn
      rw [show nodesOf (state.returned left).cursor = _ from back.nodes] at changed
      rw [stop]
      exact ⟨back.trans kept, .cons (moved_paddedAfter place atElement) changed⟩

theorem visitList_moves
    {place : ContainerPlace}
    {list : Container Tree}
    (children : forall tree, tree ∈ list.elements ->
      WalksTo (plainRelation (Moved style) child closes).child tree (visit tree)) :
    Java.Walks ((plainRelation (Moved style) child closes).list place) list (Exact.visitList style visit place list) := by
  intro state
  obtain ⟨before, opened, atBefore, atSpace⟩ :=
    visitSpace_moves style place.before list.before (state.entered (.padding (.container place)))
  refine visitList_yields style atBefore ((visitElements_moves children _ _ opened).mono ?_)
  intro padded left atElements goesOn
  obtain ⟨kept, moved⟩ := atSpace goesOn
  obtain ⟨keptInside, elements⟩ := atElements kept.goesOn
  have inside : Kept ((viewOf state).entered (.padding (.container place))) (viewOf left) := kept.trans keptInside
  rw [show nodesOf opened.cursor = _ from kept.nodes] at elements
  exact ⟨inside.returned, moved, elements, unmoved_markers list.markers⟩

end Indents

/-! ### The pass -/

/-- The indentation moves the spaces of every form by their places. -/
theorem tabsAndIndents_walks_plain
    {child : List TreeFrame -> Tree -> Tree -> Prop}
    (style : IndentStyle) :
    (Exact.tabsAndIndents style).Walks (plainRelation (Moved style) child fun _ old new => new = old) where
  gaps := {
    space := Indents.visitSpace_moves style
    markers := fun markers state => ⟨markers, state, markers_eq_self rfl markers state,
      fun goesOn => ⟨.refl goesOn, Indents.unmoved_markers markers⟩⟩ }
  list := fun _ _ _ => Indents.visitList_moves
  before := fun tree state isNew => by
    refine ⟨some tree, _, Indents.enterNode_eq style tree state, rfl, Indents.goesIn_of_entered style isNew, ?_⟩
    exact fun goesOn => ⟨goesOn, Indents.values_enteredCursor style tree state.cursor⟩
  after := fun tree _ => .pure ⟨tree, rfl, fun goesOn => ⟨.refl goesOn, rfl⟩⟩
  accepts := rfl
  acceptsSource := rfl
  dispatch := rfl
  depthBound := rfl
  generations := rfl

/-- The indentation moves the spaces of a tree that can be read, each to some column. -/
theorem tabsAndIndents_changes
    {tree : Tree}
    (styles : Styles)
    (style : IndentStyle)
    (part : tree.IsPart) :
    exists new, (Exact.tabsAndIndents style).run none .root tree = .ok (some new) ∧
      Changed styles (Moved style) tree new :=
  Pass.exists_changed (tabsAndIndents_walks_plain style) part

end Format
end Lossless
