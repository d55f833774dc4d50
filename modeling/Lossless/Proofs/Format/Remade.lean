import Lossless.Proofs.Format.Hooks
import Lossless.Proofs.Java.Form

/-!
# Runs as functions

A pass that puts no messages on the frames leaves the state of a visit as it is, as long as nothing stops it. What a
run makes of a tree is then a function of the tree and of what is known of the nodes around it. `Tree.remake` is one
level of this function: the spaces and the marker sets of a node are changed, and its children replaced.
-/

namespace Lossless

section Runs

open Java

/-- What becomes of the spaces and the marker sets of a tree. -/
structure GapChange where
  space : SpacePlace -> Space -> Space
  markers : Markers Space -> Markers Space

namespace GapChange

/-- Nothing becomes of them. -/
def keep : GapChange := ⟨fun _ space => space, id⟩

/-- One change after another. -/
def andThen (first second : GapChange) : GapChange where
  space := fun place space => second.space place (first.space place space)
  markers := fun markers => second.markers (first.markers markers)

end GapChange

variable {α β δ κ : Type}

/-! ## One level -/

/-- Change the padding, and replace the element. -/
def RightPadded.remake
    (change : GapChange)
    (place : ElementPlace)
    (child : α -> β)
    (padded : RightPadded α) : RightPadded β :=
  ⟨child padded.element, change.space place.after padded.after, change.markers padded.markers⟩

/-- Change the padding, and replace the element. -/
def LeftPadded.remake
    (change : GapChange)
    (place : OperandPlace)
    (child : α -> β)
    (padded : LeftPadded α) : LeftPadded β :=
  ⟨change.space place.before padded.before, child padded.element, change.markers padded.markers⟩

/-- Change the padding of the list and of its elements, and replace the elements. -/
def Container.remake
    (change : GapChange)
    (place : ContainerPlace)
    (child : α -> β)
    (list : Container α) : Container β :=
  ⟨change.space place.before list.before, list.padded.map (·.remake change place.element child),
    change.markers list.markers⟩

namespace Java

/-- Change the spaces and the marker sets of a form, and replace its children. -/
def Form.remake
    (change : GapChange)
    (child : α -> β) : Form α -> Form β
  | compilationUnit dialect source statements eof =>
      .compilationUnit dialect source (statements.map (·.remake change .compilationUnitStatement child))
        (change.space .compilationUnitEof eof)
  | block statements closing =>
      .block (statements.map (·.remake change .blockStatement child)) (change.space .blockEnd closing)
  | conditional condition consequence alternative =>
      .conditional (child condition) (consequence.remake change .ifThen child) (alternative.map child)
  | otherwise body => .otherwise (body.remake change .elseBody child)
  | returns value => .returns (value.map child)
  | assignment target value typeTag =>
      .assignment (child target) (value.remake change .assignmentValue child) typeTag
  | binary left operator right typeTag =>
      .binary (child left) (operator.remake change .binaryOperator id) (child right) typeTag
  | identifier name typeTag => .identifier name typeTag
  | literal source typeTag => .literal source typeTag
  | fieldAccess target name typeTag =>
      .fieldAccess (child target) (name.remake change .fieldAccessName child) typeTag
  | call receiver name arguments typeTag =>
      .call (receiver.map (·.remake change .methodSelect child)) (child name)
        (arguments.remake change .methodInvocationArguments child) typeTag
  | declaration returnType name parameters body =>
      .declaration (returnType.map child) (child name)
        (parameters.remake change .methodDeclarationParameters child) (body.map child)
  | parentheses inner => .parentheses (inner.remake change .parentheses child)
  | collection kind elements typeTag =>
      .collection kind (elements.remake change .collectionElements child) typeTag
  | empty => .empty
  | unknown text => .unknown text

namespace Form

theorem remake_map
    (change : GapChange)
    (first : α -> β)
    (child : β -> δ)
    (form : Form α) :
    (form.map first).remake change child = form.remake change fun element => child (first element) := by
  cases form <;>
    simp [map, remake, RightPadded.map, RightPadded.remake, LeftPadded.map, LeftPadded.remake, Container.map,
      Container.remake, Function.comp_def]

theorem map_remake
    (change : GapChange)
    (child : α -> β)
    (last : β -> δ)
    (form : Form α) :
    (form.remake change child).map last = form.remake change fun element => last (child element) := by
  cases form <;>
    simp [map, remake, RightPadded.map, RightPadded.remake, LeftPadded.map, LeftPadded.remake, Container.map,
      Container.remake, Function.comp_def]

/-- Replacements that agree on the children give the same form. -/
theorem remake_congr
    (change : GapChange)
    {first second : α -> β}
    {form : Form α}
    (same : forall child, child ∈ form.children -> first child = second child) :
    form.remake change first = form.remake change second := by
  have split (child : α -> β) : form.remake change child = (form.map child).remake change id :=
    (remake_map change child id form).symm
  rw [split, split, map_congr same]

theorem remake_remake
    (first second : GapChange)
    (inner : α -> β)
    (outer : β -> δ)
    (form : Form α) :
    (form.remake first inner).remake second outer =
      form.remake (first.andThen second) fun child => outer (inner child) := by
  cases form <;>
    simp [remake, RightPadded.remake, LeftPadded.remake, Container.remake, GapChange.andThen, Function.comp_def]

/-- Without a change of spaces and markers, only the children are replaced. -/
theorem remake_keep
    (child : α -> β)
    (form : Form α) :
    form.remake .keep child = form.map child := by
  cases form <;> rfl

@[simp] theorem leadingPlace_remake
    (change : GapChange)
    (child : α -> β)
    (form : Form α) :
    (form.remake change child).leadingPlace = form.leadingPlace := by
  cases form <;> rfl

end Form

/-- Change the spaces and the marker sets of a node, and replace its children. -/
def Tree.remake
    (change : GapChange)
    (child : Tree -> Tree)
    (tree : Tree) : Tree :=
  tree.revise (change.space tree.form.leadingPlace tree.leading) (change.markers tree.markers)
    (tree.form.remake change child)

section Tree

variable (change : GapChange) (child : Tree -> Tree) (tree : Tree)

@[simp] theorem Tree.leading_remake :
    (tree.remake change child).leading = change.space tree.form.leadingPlace tree.leading :=
  leading_revise ..

@[simp] theorem Tree.markers_remake : (tree.remake change child).markers = change.markers tree.markers :=
  markers_revise ..

@[simp] theorem Tree.form_remake : (tree.remake change child).form = tree.form.remake change child :=
  form_revise ..

end Tree

end Java

/-! ## Runs -/

namespace Format

open VisitM

section Relation

variable (change : GapChange)
variable (context : TreeCursor -> κ)
variable (child : κ -> Tree -> Tree)
variable (close : TreeCursor -> Tree -> Tree)

/-- The parts of a node are replaced by functions of them, and nothing else happens, as long as nothing stops the visit. -/
def remadeRelation : WalkRelation where
  space := fun place view old left new => view.stop = .never -> left = view ∧ new = change.space place old
  markers := fun view old left new => view.stop = .never -> left = view ∧ new = change.markers old
  child := fun view old left new => view.stop = .never -> left = view ∧ new = child (context view.cursor) old
  list := fun place view old left new => view.stop = .never ->
    left = view ∧ new = old.remake change place (child (context view.cursor))
  opens := fun view _ left => view.stop = .never -> left = view
  closes := fun view old left new => view.stop = .never -> left = view ∧ new = close view.cursor old

end Relation

section Walked

variable {change : GapChange}
variable {context : TreeCursor -> κ}
variable {child : κ -> Tree -> Tree}
variable {close : TreeCursor -> Tree -> Tree}
variable (padding : forall cursor place, context (cursor.push (.padding place)) = context cursor)
variable {view left : View}

include padding

theorem remade_of_walkedElement
    {place : ElementPlace}
    {old new : RightPadded Tree}
    (walked : WalkedElement (remadeRelation change context child close) place view old left new)
    (goesOn : view.stop = .never) :
    left = view ∧ new = old.remake change place (child (context view.cursor)) := by
  cases walked with
  | mk element after markers =>
      obtain ⟨rfl, rfl⟩ := element goesOn
      rw [returned_entered] at after
      obtain ⟨rfl, rfl⟩ := after goesOn
      obtain ⟨rfl, rfl⟩ := markers goesOn
      exact ⟨rfl, by rw [RightPadded.remake, View.entered, padding]⟩

theorem remade_of_walkedElements
    {place : ElementPlace}
    {old new : List (RightPadded Tree)}
    (walked : WalkedElements (remadeRelation change context child close) place view old left new)
    (goesOn : view.stop = .never) :
    left = view ∧ new = old.map (·.remake change place (child (context view.cursor))) := by
  induction walked with
  | nil => exact ⟨rfl, rfl⟩
  | cons first _ ih =>
      obtain ⟨rfl, rfl⟩ := remade_of_walkedElement padding first goesOn
      obtain ⟨rfl, rfl⟩ := ih goesOn
      exact ⟨rfl, rfl⟩

theorem remade_of_walkedOperand
    {place : OperandPlace}
    {old new : LeftPadded Tree}
    (walked : WalkedOperand (remadeRelation change context child close) place view old left new)
    (goesOn : view.stop = .never) :
    left = view ∧ new = old.remake change place (child (context view.cursor)) := by
  cases walked with
  | mk before element markers =>
      obtain ⟨rfl, rfl⟩ := before goesOn
      obtain ⟨rfl, rfl⟩ := element goesOn
      rw [returned_entered] at markers
      obtain ⟨rfl, rfl⟩ := markers goesOn
      exact ⟨rfl, by rw [LeftPadded.remake, View.entered, padding]⟩

theorem remade_of_walkedContainer
    {place : ContainerPlace}
    {old new : Container Tree}
    (walked : WalkedContainer (remadeRelation change context child close) place view old left new)
    (goesOn : view.stop = .never) :
    left = view ∧ new = old.remake change place (child (context view.cursor)) := by
  cases walked with
  | mk before elements markers =>
      obtain ⟨rfl, rfl⟩ := before goesOn
      obtain ⟨rfl, rfl⟩ := remade_of_walkedElements padding elements goesOn
      rw [returned_entered] at markers
      obtain ⟨rfl, rfl⟩ := markers goesOn
      exact ⟨rfl, by rw [Container.remake, View.entered, padding]⟩

/-- What is made of a form is a function of it and of what is known around it. -/
theorem remade_of_walkedForm
    {old new : Form Tree}
    (walked : WalkedForm (remadeRelation change context child close) view old left new)
    (goesOn : view.stop = .never) :
    left = view ∧ new = old.remake change (child (context view.cursor)) := by
  have option {view left : View} {old new : Option Tree}
      (walked : WalkedOption (remadeRelation change context child close).child view old left new)
      (goesOn : view.stop = .never) :
      left = view ∧ new = old.map (child (context view.cursor)) := by
    cases walked with
    | none => exact ⟨rfl, rfl⟩
    | some present =>
        obtain ⟨rfl, rfl⟩ := present goesOn
        exact ⟨rfl, rfl⟩
  have element {view left : View} {place : ElementPlace} {old new : RightPadded Tree}
      (walked : WalkedElement (remadeRelation change context child close) place view old left new) :=
    remade_of_walkedElement padding walked
  cases walked with
  | compilationUnit statements eof =>
      obtain ⟨rfl, rfl⟩ := remade_of_walkedElements padding statements goesOn
      obtain ⟨rfl, rfl⟩ := eof goesOn
      exact ⟨rfl, rfl⟩
  | block statements closing =>
      obtain ⟨rfl, rfl⟩ := remade_of_walkedElements padding statements goesOn
      obtain ⟨rfl, rfl⟩ := closing goesOn
      exact ⟨rfl, rfl⟩
  | conditional condition consequence alternative =>
      obtain ⟨rfl, rfl⟩ := condition goesOn
      obtain ⟨rfl, rfl⟩ := element consequence goesOn
      obtain ⟨rfl, rfl⟩ := option alternative goesOn
      exact ⟨rfl, rfl⟩
  | otherwise body =>
      obtain ⟨rfl, rfl⟩ := element body goesOn
      exact ⟨rfl, rfl⟩
  | returns value =>
      obtain ⟨rfl, rfl⟩ := option value goesOn
      exact ⟨rfl, rfl⟩
  | assignment target value =>
      obtain ⟨rfl, rfl⟩ := target goesOn
      obtain ⟨rfl, rfl⟩ := remade_of_walkedOperand padding value goesOn
      exact ⟨rfl, rfl⟩
  | binary leftTree operator right =>
      obtain ⟨rfl, rfl⟩ := leftTree goesOn
      cases operator with
      | mk before markers =>
          obtain ⟨rfl, rfl⟩ := before goesOn
          rw [returned_entered] at markers
          obtain ⟨rfl, rfl⟩ := markers goesOn
          obtain ⟨rfl, rfl⟩ := right goesOn
          exact ⟨rfl, rfl⟩
  | identifier => exact ⟨rfl, rfl⟩
  | literal => exact ⟨rfl, rfl⟩
  | fieldAccess target name =>
      obtain ⟨rfl, rfl⟩ := target goesOn
      obtain ⟨rfl, rfl⟩ := remade_of_walkedOperand padding name goesOn
      exact ⟨rfl, rfl⟩
  | call receiver name list =>
      cases receiver with
      | none =>
          obtain ⟨rfl, rfl⟩ := name goesOn
          obtain ⟨rfl, rfl⟩ := list goesOn
          exact ⟨rfl, rfl⟩
      | some receiver =>
          obtain ⟨rfl, rfl⟩ := element receiver goesOn
          obtain ⟨rfl, rfl⟩ := name goesOn
          obtain ⟨rfl, rfl⟩ := list goesOn
          exact ⟨rfl, rfl⟩
  | declaration returnType name list body =>
      obtain ⟨rfl, rfl⟩ := option returnType goesOn
      obtain ⟨rfl, rfl⟩ := name goesOn
      obtain ⟨rfl, rfl⟩ := list goesOn
      obtain ⟨rfl, rfl⟩ := option body goesOn
      exact ⟨rfl, rfl⟩
  | parentheses inner =>
      obtain ⟨rfl, rfl⟩ := element inner goesOn
      exact ⟨rfl, rfl⟩
  | collection list =>
      obtain ⟨rfl, rfl⟩ := list goesOn
      exact ⟨rfl, rfl⟩
  | empty => exact ⟨rfl, rfl⟩
  | unknown => exact ⟨rfl, rfl⟩

/-- What is made of a node is what the hook after it makes of the node with its parts replaced. -/
theorem remade_of_walkedNode
    {old new : Tree}
    (walked : WalkedNode (remadeRelation change context child close) view old left new)
    (goesOn : view.stop = .never) :
    left = view ∧
      let inside := view.cursor.push (.tree old)
      new = close inside (old.remake change (child (context inside))) := by
  cases walked with
  | stopped stopped =>
      rw [goesOn] at stopped
      cases stopped
  | walked _ opens parts closes =>
      obtain rfl := opens goesOn
      cases parts with
      | mk leading markers form =>
          obtain ⟨rfl, rfl⟩ := leading goesOn
          obtain ⟨rfl, rfl⟩ := markers goesOn
          obtain ⟨rfl, rfl⟩ := remade_of_walkedForm padding form goesOn
          obtain ⟨rfl, rfl⟩ := closes goesOn
          refine ⟨?_, rfl⟩
          rw [returned_entered, View.observed, StopAfter.observe, goesOn]
          cases view
          cases goesOn
          rfl

end Walked

/-- A list that is visited in the ordinary way. -/
theorem container_walks_remade
    {visitor : GapVisitor Unit Unit}
    {change : GapChange}
    {context : TreeCursor -> κ}
    {child : κ -> Tree -> Tree}
    {close : TreeCursor -> Tree -> Tree}
    (walks : visitor.Walks (remadeRelation change context child close))
    (padding : forall cursor place, context (cursor.push (.padding place)) = context cursor)
    {visit : Tree -> PassVisit (Option Tree)}
    {place : ContainerPlace}
    {list : Container Tree}
    (children : forall tree, tree ∈ list.elements ->
      WalksTo (remadeRelation change context child close).child tree (visit tree)) :
    Java.Walks ((remadeRelation change context child close).list place) list (visitor.container visit place list) :=
  fun state => (GapVisitor.container_walks walks place children state).mono fun _ _ =>
    remade_of_walkedContainer padding

/-- A run of such a pass gives the function that its hooks give node by node. -/
theorem Pass.run_eq
    {pass : Pass}
    {change : GapChange}
    {context : TreeCursor -> κ}
    {child : κ -> Tree -> Tree}
    {close : TreeCursor -> Tree -> Tree}
    (walks : Visitor.Walks pass (remadeRelation change context child close))
    (padding : forall cursor place, context (cursor.push (.padding place)) = context cursor)
    (node : forall cursor tree,
      let inside := cursor.push (.tree tree)
      close inside (tree.remake change (child (context inside))) = child (context cursor) tree)
    (cursor : TreeCursor)
    (tree : Tree) :
    pass.run none cursor tree = .ok (some (child (context cursor) tree)) := by
  have nodes (view : View) (old : Tree) (left : View) (new : Tree)
      (walked : WalkedNode (remadeRelation change context child close) view old left new)
      (goesOn : view.stop = .never) :
      left = view ∧ new = child (context view.cursor) old := by
    obtain ⟨rfl, rfl⟩ := remade_of_walkedNode padding walked goesOn
    exact ⟨rfl, node _ _⟩
  obtain ⟨_, left, runs, _, rfl, related⟩ :=
    Visitor.run_walks walks nodes tree (.start cursor (.ofTarget none) () ())
  obtain ⟨-, rfl⟩ := related rfl
  exact congrArg Prod.fst runs

/-! ## Passes over spaces -/

/-- What a pass over spaces makes of spaces, those after trailing commas included. -/
def gapsOf (change : SpacePlace -> Space -> Space) : GapChange where
  space := change
  markers := fun markers =>
    markers.withMarkers (markers.toList.map (Exact.mapTrailingComma (change .trailingCommaSuffix)))

/-- The tree with all spaces and marker sets changed. -/
def respaced
    (change : GapChange)
    (tree : Tree) : Tree :=
  Tree.recurse (fun head form =>
    let old := Java.Tree.node head (form.map Prod.fst)
    old.revise (change.space old.form.leadingPlace old.leading) (change.markers old.markers)
      (form.remake change Prod.snd)) tree

theorem respaced_eq
    (change : GapChange)
    (tree : Tree) :
    respaced change tree = tree.remake change (respaced change) := by
  obtain ⟨head, form⟩ := tree
  rw [respaced, Tree.recurse_node, Form.map_fst_withValue, Form.remake_map]
  rfl

theorem ofSpaces_gaps_remade
    (change : SpacePlace -> Space -> Space)
    (context : TreeCursor -> κ)
    (child : κ -> Tree -> Tree)
    (close : TreeCursor -> Tree -> Tree) :
    (Exact.ofSpaces change).toGapVisitor.Walks (remadeRelation (gapsOf change) context child close) where
  space := fun place space state => by
    refine ⟨_, state, Pass.unlessStopped_eq .., fun goesOn => ⟨rfl, ?_⟩⟩
    change state.stop = _ at goesOn
    rw [goesOn]
    rfl
  markers := fun markers state => by
    refine ⟨_, state, Pass.ofSpaces_markers_eq .., fun goesOn => ⟨rfl, ?_⟩⟩
    change state.stop = _ at goesOn
    rw [goesOn]
    rfl

theorem ofSpaces_walks_remade
    (change : SpacePlace -> Space -> Space)
    (child : Tree -> Tree) :
    (Exact.ofSpaces change).Walks
      (remadeRelation (gapsOf change) (fun _ => ()) (fun _ => child) fun _ tree => tree) where
  gaps := ofSpaces_gaps_remade change _ _ _
  list := fun _ _ _ children =>
    container_walks_remade (ofSpaces_gaps_remade change _ _ _) (fun _ _ => rfl) children
  before := fun _ _ isNew => .pure ⟨rfl, goesIn_of_isNew isNew, fun _ => rfl⟩
  after := fun tree _ => .pure ⟨tree, rfl, fun _ => ⟨rfl, rfl⟩⟩
  accepts := rfl
  acceptsSource := rfl
  dispatch := rfl
  depthBound := rfl
  generations := rfl

/-- A run of a pass over spaces changes every space of the tree, whatever tree it is. -/
theorem ofSpaces_run
    (change : SpacePlace -> Space -> Space)
    (cursor : TreeCursor)
    (tree : Tree) :
    (Exact.ofSpaces change).run none cursor tree = .ok (some (respaced (gapsOf change) tree)) :=
  Pass.run_eq (ofSpaces_walks_remade change (respaced (gapsOf change))) (fun _ _ => rfl)
    (fun _ tree => (respaced_eq _ tree).symm) cursor tree

end Format

end Runs

/-!
## Changes of nodes that settle

A pass over nodes changes each node after its children: the space before the node, and the form with the spaces before
the children. So the space before a node can be written twice, by the node and by the one around it, and running the
pass again on its own result changes a node on the way in which nothing changes in the end. `IsSettled` says what a
second run makes of a node whatever space the one around it has put before it; it passes from the children to the node
when the change `Settles`.
-/

namespace Format

open Java VisitM

variable {κ : Type}

/-- What becomes of a node after its children, given what is known of the nodes around it. -/
structure NodeChange (κ : Type) where
  /-- What is known below a node. -/
  below : κ -> Form Tree -> κ
  /-- What becomes of the space before the node. -/
  leading : κ -> Form Tree -> Space -> Space
  form : κ -> Form Tree -> Form Tree

namespace NodeChange

/-- Change a node. -/
def close
    (change : NodeChange κ)
    (around : κ)
    (tree : Tree) : Tree :=
  tree.revise (change.leading around tree.form tree.leading) tree.markers (change.form around tree.form)

/-- Change all nodes of a tree, every one after those below it. -/
def rewritten
    (change : NodeChange κ)
    (around : κ)
    (tree : Tree) : Tree :=
  Tree.recurse (fun head form around =>
    let old := form.map Prod.fst
    change.close around <|
      (Java.Tree.node head old).withForm (form.map fun child => child.2 (change.below around old))) tree around

theorem rewritten_eq
    (change : NodeChange κ)
    (around : κ)
    (tree : Tree) :
    change.rewritten around tree =
      change.close around (tree.withForm (tree.form.map (change.rewritten (change.below around tree.form)))) := by
  obtain ⟨head, form⟩ := tree
  rw [rewritten, Tree.recurse_node, Form.map_fst_withValue]
  dsimp only
  rw [Form.map_map]
  rfl

theorem close_withForm
    (change : NodeChange κ)
    (around : κ)
    (tree : Tree)
    (form : Form Tree) :
    change.close around (tree.withForm form) =
      (tree.withForm form).revise (change.leading around form tree.leading) tree.markers (change.form around form) := by
  unfold close
  rw [Tree.withForm, Tree.form_revise, Tree.leading_revise, Tree.markers_revise]

end NodeChange

/-! ### Runs -/

theorem ofNodes_gaps_remade
    (hook : TreeCursor -> Tree -> Tree)
    (context : TreeCursor -> κ)
    (child : κ -> Tree -> Tree)
    (close : TreeCursor -> Tree -> Tree) :
    (Pass.ofNodes hook).toGapVisitor.Walks (remadeRelation .keep context child close) where
  space := fun _ _ _ => .pure fun _ => ⟨rfl, rfl⟩
  markers := fun markers state => ⟨markers, state, markers_eq_self rfl markers state, fun _ => ⟨rfl, rfl⟩⟩

theorem ofNodes_walks_remade
    (hook : TreeCursor -> Tree -> Tree)
    {context : TreeCursor -> κ}
    (padding : forall cursor place, context (cursor.push (.padding place)) = context cursor)
    (child : κ -> Tree -> Tree) :
    (Pass.ofNodes hook).Walks (remadeRelation .keep context child hook) where
  gaps := ofNodes_gaps_remade hook _ _ _
  list := fun _ _ _ children => container_walks_remade (ofNodes_gaps_remade hook _ _ _) padding children
  before := fun _ _ isNew => .pure ⟨rfl, goesIn_of_isNew isNew, fun _ => rfl⟩
  after := fun tree state => by
    refine .bind_eq rfl (.bind_eq (Pass.unlessStopped_eq tree (hook state.cursor) state) (.pure ?_))
    refine ⟨_, rfl, fun goesOn => ⟨rfl, ?_⟩⟩
    change state.stop = _ at goesOn
    rw [goesOn]
    rfl
  accepts := rfl
  acceptsSource := rfl
  dispatch := rfl
  depthBound := rfl
  generations := rfl

/-- The hook for nodes changes them by what it reads from the frames. -/
structure NodeChange.IsReadBy
    (change : NodeChange κ)
    (context : TreeCursor -> κ)
    (hook : TreeCursor -> Tree -> Tree) : Prop where
  padding : forall cursor place, context (cursor.push (.padding place)) = context cursor
  below : forall cursor tree, context (cursor.push (.tree tree)) = change.below (context cursor) tree.form
  close : forall cursor tree replace,
    let parts := tree.withForm (tree.form.map replace)
    hook (cursor.push (.tree tree)) parts = change.close (context cursor) parts

/-- A run of a pass over nodes changes all nodes of the tree, whatever tree it is. -/
theorem ofNodes_run
    {change : NodeChange κ}
    {context : TreeCursor -> κ}
    {hook : TreeCursor -> Tree -> Tree}
    (isRead : change.IsReadBy context hook)
    (cursor : TreeCursor)
    (tree : Tree) :
    (Pass.ofNodes hook).run none cursor tree = .ok (some (change.rewritten (context cursor) tree)) := by
  refine Pass.run_eq (ofNodes_walks_remade hook isRead.padding change.rewritten) isRead.padding
    (fun cursor tree => ?_) cursor tree
  dsimp only
  rw [Tree.remake, Form.remake_keep, isRead.below, change.rewritten_eq, ← isRead.close]
  rfl

/-! ### Settling -/

variable {change : NodeChange κ}
variable {own : κ -> Form Tree -> Space -> Space}

/-- The node writes its own space as it is, and nothing else, whatever space stands before it. -/
structure IsSettled
    (change : NodeChange κ)
    (own : κ -> Form Tree -> Space -> Space)
    (around : κ)
    (tree : Tree) : Prop where
  leading : own around tree.form tree.leading = tree.leading
  again : forall space, change.rewritten around (tree.withLeading space) =
    (tree.withLeading space).withLeading (own around tree.form space)

/--
A change that settles: once a form has been changed, visiting its children and changing it again gives it back, and
`own` is what becomes of the space before the node.
-/
structure NodeChange.Settles
    (change : NodeChange κ)
    (own : κ -> Form Tree -> Space -> Space) : Prop where
  below_map : forall around form replace, change.below around (form.map replace) = change.below around form
  below_form : forall around form, change.below around (change.form around form) = change.below around form
  own_form : forall around form, own around (change.form around form) = own around form
  own_leading : forall around form space,
    own around form (change.leading around form space) = change.leading around form space
  again : forall around form, (forall child, child ∈ form.children ->
      IsSettled change own (change.below around form) child) ->
    let new := change.form around form
    let seen := new.map (change.rewritten (change.below around form))
    (seen = new ∨ new ≠ form) ∧ change.form around seen = new ∧
      forall space, change.leading around seen space = own around form space

end Format

end Lossless
