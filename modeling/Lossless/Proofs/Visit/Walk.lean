import Lossless.Proofs.Visit.Steps

/-!
# Walks

What a visitor that never fails and never deletes a node makes of the parts of a node, and of all nodes below it.
-/

namespace Lossless

/-!
## Walks that succeed

A pass never fails and never deletes a node: its visits of the parts of a node give parts. What holds between
the parts before and after is a relation that also sees the stop and the frames before and after, since one
step of a walk leaves to the next where it has got to. `WalkedForm` puts the relations of the parts together to
one of the whole, step by step in the order of the walk, with the frames of the paddings in between.

This part of the argument is the same for all passes; a pass supplies the relations for its hooks.
-/

section Success

variable {τ ω σ γ α β : Type}

namespace VisitM

/-- The step succeeds, with a value and a state of which something holds. -/
def Yields
    (step : VisitM τ ω σ γ α)
    (state : VisitState τ ω σ γ)
    (post : α -> VisitState τ ω σ γ -> Prop) : Prop :=
  exists value left, step state = (.ok value, left) ∧ post value left

theorem Yields.pure
    {value : α}
    {state : VisitState τ ω σ γ}
    {post : α -> VisitState τ ω σ γ -> Prop}
    (holds : post value state) :
    Yields (pure value) state post :=
  ⟨value, state, rfl, holds⟩

theorem Yields.mono
    {step : VisitM τ ω σ γ α}
    {state : VisitState τ ω σ γ}
    {post weaker : α -> VisitState τ ω σ γ -> Prop}
    (yields : step.Yields state post)
    (implies : forall value left, post value left -> weaker value left) :
    step.Yields state weaker := by
  obtain ⟨value, left, outcome, holds⟩ := yields
  exact ⟨value, left, outcome, implies value left holds⟩

theorem Yields.bind
    {step : VisitM τ ω σ γ α}
    {next : α -> VisitM τ ω σ γ β}
    {state : VisitState τ ω σ γ}
    {middle : α -> VisitState τ ω σ γ -> Prop}
    {post : β -> VisitState τ ω σ γ -> Prop}
    (first : step.Yields state middle)
    (others : forall value left, middle value left -> (next value).Yields left post) :
    (step >>= next).Yields state post := by
  obtain ⟨value, left, outcome, holds⟩ := first
  obtain ⟨result, last, finished, holdsLast⟩ := others value left holds
  refine ⟨result, last, ?_, holdsLast⟩
  rw [bind_apply, outcome]
  exact finished

/-- A step in a frame of its own ends back at the frames from before. -/
theorem Yields.within
    {step : VisitM τ ω σ γ α}
    {state : VisitState τ ω σ γ}
    {place : FrameValue τ ω}
    {post : α -> VisitState τ ω σ γ -> Prop}
    (inner : step.Yields (state.entered place) post) :
    (within place step).Yields state fun value last =>
      exists left, post value left ∧ last = state.returned left := by
  obtain ⟨value, left, outcome, holds⟩ := inner
  refine ⟨value, state.returned left, ?_, left, holds, rfl⟩
  rw [within_apply, outcome]

theorem Yields.attempt
    {step : VisitM τ ω σ γ α}
    {state : VisitState τ ω σ γ}
    {post : α -> VisitState τ ω σ γ -> Prop}
    (inner : step.Yields state post) :
    (attempt step).Yields state fun outcome left => exists value, outcome = .ok value ∧ post value left := by
  obtain ⟨value, left, outcome, holds⟩ := inner
  refine ⟨.ok value, left, ?_, value, rfl, holds⟩
  simp only [VisitM.attempt, outcome]

end VisitM

namespace Java

open VisitM

/-! ### What a walk sees of the state -/

/-- What of the state of a visitor counts for the relations between parts. -/
structure View where
  stop : StopAfter
  cursor : TreeCursor

/-- The part of a state that counts. -/
def viewOf (state : VisitState Tree PaddingFrame σ γ) : View :=
  ⟨state.stop, state.cursor⟩

namespace View

/-- Inside a frame. -/
def entered
    (view : View)
    (value : TreeFrame) : View :=
  { view with cursor := view.cursor.push value }

/-- Later, and back at the frames of this view. -/
def returned (view left : View) : View :=
  { left with cursor := view.cursor.returnTo left.cursor }

/-- After the visit of a node. -/
def observed
    (view : View)
    (id : Stamp) : View :=
  { view with stop := view.stop.observe id }

end View

/-! ### Relations of parts -/

/-- How the parts of a node are related to what a walk makes of them. -/
structure WalkRelation where
  space : SpacePlace -> View -> Space -> View -> Space -> Prop
  markers : View -> Markers Space -> View -> Markers Space -> Prop
  child : View -> Tree -> View -> Tree -> Prop
  list : ContainerPlace -> View -> Container Tree -> View -> Container Tree -> Prop
  /-- What the hook before a node does to the view. -/
  opens : View -> Tree -> View -> Prop
  /-- What the hook after a node makes of it. -/
  closes : View -> Tree -> View -> Tree -> Prop

section Relations

variable (relation : WalkRelation)

/-- An element in a frame of its own, then the space and the markers beside it. -/
inductive WalkedElement (place : ElementPlace) :
    View -> RightPadded Tree -> View -> RightPadded Tree -> Prop
  | mk {view left middle last element element' after after' markers markers'} :
      relation.child (view.entered (.padding (.element place))) element left element' ->
      relation.space place.after (view.returned left) after middle after' ->
      relation.markers middle markers last markers' ->
        WalkedElement place view ⟨element, after, markers⟩ last ⟨element', after', markers'⟩

/-- The elements of a list in order. -/
inductive WalkedElements (place : ElementPlace) :
    View -> List (RightPadded Tree) -> View -> List (RightPadded Tree) -> Prop
  | nil {view} : WalkedElements place view [] view []
  | cons {view middle left first first' rest rest'} :
      WalkedElement relation place view first middle first' ->
      WalkedElements place middle rest left rest' ->
        WalkedElements place view (first :: rest) left (first' :: rest')

/-- The space before an operand and the operand in one frame, then the markers. -/
inductive WalkedOperand (place : OperandPlace) :
    View -> LeftPadded Tree -> View -> LeftPadded Tree -> Prop
  | mk {view middle left last before before' element element' markers markers'} :
      relation.space place.before (view.entered (.padding (.operand place))) before middle before' ->
      relation.child middle element left element' ->
      relation.markers (view.returned left) markers last markers' ->
        WalkedOperand place view ⟨before, element, markers⟩ last ⟨before', element', markers'⟩

/-- The space before an operator in a frame, then the markers. -/
inductive WalkedOperator : View -> LeftPadded Operator -> View -> LeftPadded Operator -> Prop
  | mk {view left last before before' element markers markers'} :
      relation.space OperandPlace.binaryOperator.before (view.entered (.padding (.operand .binaryOperator))) before
        left before' ->
      relation.markers (view.returned left) markers last markers' ->
        WalkedOperator view ⟨before, element, markers⟩ last ⟨before', element, markers'⟩

/-- The space before a list and its elements in one frame, then the markers. -/
inductive WalkedContainer (place : ContainerPlace) :
    View -> Container Tree -> View -> Container Tree -> Prop
  | mk {view middle left last before before' padded padded' markers markers'} :
      relation.space place.before (view.entered (.padding (.container place))) before middle before' ->
      WalkedElements relation place.element middle padded left padded' ->
      relation.markers (view.returned left) markers last markers' ->
        WalkedContainer place view ⟨before, padded, markers⟩ last ⟨before', padded', markers'⟩

/-- A child that may be absent. -/
inductive WalkedOption (child : View -> α -> View -> α -> Prop) :
    View -> Option α -> View -> Option α -> Prop
  | none {view} : WalkedOption child view .none view .none
  | some {view left tree tree'} :
      child view tree left tree' -> WalkedOption child view (.some tree) left (.some tree')

/-- The parts of a form in source order. -/
inductive WalkedForm : View -> Form Tree -> View -> Form Tree -> Prop
  | compilationUnit {view middle left dialect source statements statements' eof eof'} :
      WalkedElements relation .compilationUnitStatement view statements middle statements' ->
      relation.space .compilationUnitEof middle eof left eof' ->
        WalkedForm view (.compilationUnit dialect source statements eof) left
          (.compilationUnit dialect source statements' eof')
  | block {view middle left statements statements' closing closing'} :
      WalkedElements relation .blockStatement view statements middle statements' ->
      relation.space .blockEnd middle closing left closing' ->
        WalkedForm view (.block statements closing) left (.block statements' closing')
  | conditional {view first second left condition condition' consequence consequence' alternative
      alternative'} :
      relation.child view condition first condition' ->
      WalkedElement relation .ifThen first consequence second consequence' ->
      WalkedOption relation.child second alternative left alternative' ->
        WalkedForm view (.conditional condition consequence alternative) left
          (.conditional condition' consequence' alternative')
  | otherwise {view left body body'} :
      WalkedElement relation .elseBody view body left body' ->
        WalkedForm view (.otherwise body) left (.otherwise body')
  | returns {view left value value'} :
      WalkedOption relation.child view value left value' ->
        WalkedForm view (.returns value) left (.returns value')
  | assignment {view middle left target target' value value' typeTag} :
      relation.child view target middle target' ->
      WalkedOperand relation .assignmentValue middle value left value' ->
        WalkedForm view (.assignment target value typeTag) left (.assignment target' value' typeTag)
  | binary {view first second left leftTree leftTree' operator operator' right right' typeTag} :
      relation.child view leftTree first leftTree' ->
      WalkedOperator relation first operator second operator' ->
      relation.child second right left right' ->
        WalkedForm view (.binary leftTree operator right typeTag) left
          (.binary leftTree' operator' right' typeTag)
  | identifier {view name typeTag} :
      WalkedForm view (.identifier name typeTag) view (.identifier name typeTag)
  | literal {view source typeTag} :
      WalkedForm view (.literal source typeTag) view (.literal source typeTag)
  | fieldAccess {view middle left target target' name name' typeTag} :
      relation.child view target middle target' ->
      WalkedOperand relation .fieldAccessName middle name left name' ->
        WalkedForm view (.fieldAccess target name typeTag) left (.fieldAccess target' name' typeTag)
  | call {view first second left receiver receiver' name name' list list' typeTag} :
      WalkedOption (WalkedElement relation .methodSelect) view receiver first receiver' ->
      relation.child first name second name' ->
      relation.list .methodInvocationArguments second list left list' ->
        WalkedForm view (.call receiver name list typeTag) left (.call receiver' name' list' typeTag)
  | declaration {view first second third left returnType returnType' name name' list list' body body'} :
      WalkedOption relation.child view returnType first returnType' ->
      relation.child first name second name' ->
      relation.list .methodDeclarationParameters second list third list' ->
      WalkedOption relation.child third body left body' ->
        WalkedForm view (.declaration returnType name list body) left
          (.declaration returnType' name' list' body')
  | parentheses {view left inner inner'} :
      WalkedElement relation .parentheses view inner left inner' ->
        WalkedForm view (.parentheses inner) left (.parentheses inner')
  | collection {view left kind list list' typeTag} :
      relation.list .collectionElements view list left list' ->
        WalkedForm view (.collection kind list typeTag) left (.collection kind list' typeTag)
  | empty {view} : WalkedForm view .empty view .empty
  | unknown {view text} : WalkedForm view (.unknown text) view (.unknown text)

/-- A node of which something has been visited: its space, its markers, and its parts. -/
inductive WalkedParts : View -> Tree -> View -> Tree -> Prop
  | mk {view first second left tree leading markers form} :
      relation.space tree.form.leadingPlace view tree.leading first leading ->
      relation.markers first tree.markers second markers ->
      WalkedForm relation second tree.form left form ->
        WalkedParts view tree left (tree.revise leading markers form)

/-- A node that is left alone after the stop, or whose hooks are run around the walk through it. -/
inductive WalkedNode : View -> Tree -> View -> Tree -> Prop
  | stopped {view tree} : view.stop.isStopped = true -> WalkedNode view tree view tree
  | walked {view opened last closed tree middle tree'} :
      view.stop.isStopped = false ->
      relation.opens (view.entered (.tree tree)) tree opened ->
      WalkedParts relation opened tree last middle ->
      relation.closes last middle closed tree' ->
        WalkedNode view tree ((view.returned closed).observed tree.id) tree'

end Relations

/-! ### Walks -/

/-- Whatever the state, the step gives a part that is related to the one it was given. -/
def Walks
    (relates : View -> α -> View -> α -> Prop)
    (part : α)
    (step : TreeVisit σ γ α) : Prop :=
  forall state, step.Yields state fun value left => relates (viewOf state) part (viewOf left) value

/-- Whatever the state, the step gives a part, and that is related to the one it was given. -/
def WalksTo
    (relates : View -> α -> View -> α -> Prop)
    (part : α)
    (step : TreeVisit σ γ (Option α)) : Prop :=
  forall state, step.Yields state fun value left =>
    exists part', value = some part' ∧ relates (viewOf state) part (viewOf left) part'

section Walk

variable {relation : WalkRelation}
variable {visit : Tree -> TreeVisit σ γ (Option Tree)}

/-- The hooks for what is no node make parts that are related to what they are given. -/
structure GapVisitor.Walks
    (visitor : GapVisitor σ γ)
    (relation : WalkRelation) : Prop where
  space : forall place space, Java.Walks (relation.space place) space (visitor.space place space)
  markers : forall markers, Java.Walks relation.markers markers (visitor.markers markers)

section Padding

variable {visitor : GapVisitor σ γ} (walks : visitor.Walks relation)

include walks

theorem GapVisitor.rightPadded_walks
    (place : ElementPlace)
    {padded : RightPadded Tree}
    (child : WalksTo relation.child padded.element (visit padded.element)) :
    WalksTo (WalkedElement relation place) padded (visitor.rightPadded visit place padded) := by
  intro state
  refine .bind (.within (child (state.entered _))) ?_
  rintro _ _ ⟨left, ⟨element, rfl, atElement⟩, rfl⟩
  refine .bind (walks.space _ _ _) fun after middle atAfter => ?_
  refine .bind (walks.markers _ _) fun markers last atMarkers => ?_
  exact .pure ⟨_, rfl, .mk atElement atAfter atMarkers⟩

theorem GapVisitor.rightPaddedList_walks
    (place : ElementPlace)
    {list : List (RightPadded Tree)}
    (children : forall child, child ∈ RightPadded.elements list -> WalksTo relation.child child (visit child)) :
    Java.Walks (WalkedElements relation place) list (visitor.rightPaddedList visit place list) := by
  induction list with
  | nil => exact fun state => .pure .nil
  | cons padded rest ih =>
      intro state
      have atFirst := children padded.element (by simp [RightPadded.elements])
      have others := ih fun child member => children child (by simp_all [RightPadded.elements])
      refine .bind (rightPadded_walks walks place atFirst state) ?_
      rintro _ middle ⟨first, rfl, walkedFirst⟩
      exact .bind (others middle) fun _ _ walked => .pure (.cons walkedFirst walked)

theorem GapVisitor.leftPadded_walks
    (place : OperandPlace)
    {padded : LeftPadded Tree}
    (child : WalksTo relation.child padded.element (visit padded.element)) :
    WalksTo (WalkedOperand relation place) padded (visitor.leftPadded visit place padded) := by
  intro state
  have inner : Yields
      (do let before <- visitor.space place.before padded.before
          return (before, <- visit padded.element))
      (state.entered (.padding (.operand place))) fun parts left =>
        exists middle element, parts.2 = some element ∧
          relation.space place.before ((viewOf state).entered (.padding (.operand place))) padded.before middle parts.1 ∧
          relation.child middle padded.element (viewOf left) element := by
    refine .bind (walks.space _ _ _) fun before middle atBefore => .bind (child middle) ?_
    rintro _ left ⟨element, rfl, atElement⟩
    exact .pure ⟨_, element, rfl, atBefore, atElement⟩
  refine .bind (.within inner) ?_
  rintro ⟨before, _⟩ _ ⟨left, ⟨middle, element, rfl, atBefore, atElement⟩, rfl⟩
  exact .bind (walks.markers _ _) fun markers last atMarkers =>
    .pure ⟨_, rfl, .mk atBefore atElement atMarkers⟩

theorem GapVisitor.operator_walks (padded : LeftPadded Operator) :
    Java.Walks (WalkedOperator relation) padded (visitor.operator padded) := by
  intro state
  refine .bind (.attempt (.within (walks.space _ _ _))) ?_
  rintro _ _ ⟨before, rfl, left, atBefore, rfl⟩
  exact .bind (walks.markers _ _) fun markers last atMarkers => ⟨_, last, rfl, .mk atBefore atMarkers⟩

theorem GapVisitor.container_walks
    (place : ContainerPlace)
    {list : Container Tree}
    (children : forall child, child ∈ list.elements -> WalksTo relation.child child (visit child)) :
    Java.Walks (WalkedContainer relation place) list (visitor.container visit place list) := by
  intro state
  have inner : Yields
      (do let before <- visitor.space place.before list.before
          return (before, <- visitor.rightPaddedList visit place.element list.padded))
      (state.entered (.padding (.container place))) fun parts left =>
        exists middle,
          relation.space place.before ((viewOf state).entered (.padding (.container place))) list.before middle parts.1 ∧
          WalkedElements relation place.element middle list.padded (viewOf left) parts.2 :=
    .bind (walks.space _ _ _) fun before middle atBefore =>
      .bind (rightPaddedList_walks walks place.element children middle) fun padded left walked =>
        .pure ⟨_, atBefore, walked⟩
  refine .bind (.within inner) ?_
  rintro ⟨before, padded⟩ _ ⟨left, ⟨middle, atBefore, walked⟩, rfl⟩
  exact .bind (walks.markers _ _) fun markers last atMarkers => .pure (.mk atBefore walked atMarkers)

end Padding

/-! ### The walk through a node -/

theorem visitOption_walks
    {child : View -> Tree -> View -> Tree -> Prop}
    {tree : Option Tree}
    (children : forall part, part ∈ tree.toList -> WalksTo child part (visit part)) :
    Java.Walks (WalkedOption child) tree (Visitor.visitOption visit tree) := by
  intro state
  cases tree with
  | none => exact .pure .none
  | some part =>
      refine (children part (by simp) state).mono ?_
      rintro _ left ⟨part', rfl, walked⟩
      exact .some walked

/-- The hooks make parts that are related to what they are given, when the visits of the children do. -/
structure Visitor.Walks
    (visitor : Visitor σ γ)
    (relation : WalkRelation) : Prop where
  gaps : visitor.toGapVisitor.Walks relation
  list : forall (visit : Tree -> TreeVisit σ γ (Option Tree)) place list,
    (forall child, child ∈ list.elements -> WalksTo relation.child child (visit child)) ->
      Java.Walks (relation.list place) list (visitor.visitContainer visit place list)
  before : forall tree state, state.cursor.top.messages = .empty ->
    (visitor.before tree).Yields state fun value left =>
      value = some tree ∧ left.cursor.message? Message.truth? skipChildrenKey ≠ some true ∧
        relation.opens (viewOf state) tree (viewOf left)
  after : forall tree, WalksTo relation.closes tree (visitor.after tree)
  accepts : visitor.accepts = fun _ => pure true
  acceptsSource : visitor.acceptsSource = fun _ => pure true
  dispatch : visitor.dispatch = fun descend => descend
  depthBound : visitor.depthBound = fun _ tree => tree.height
  generations : visitor.generations = fun _ => 0

namespace Visitor

variable {visitor : Visitor σ γ} (walks : visitor.Walks relation)

include walks

theorem visitReceiver_walks
    {receiver : Option (RightPadded Tree)}
    (children : forall part, part ∈ (receiver.map (·.element)).toList ->
      WalksTo relation.child part (visit part)) :
    Java.Walks (WalkedOption (WalkedElement relation .methodSelect)) receiver
      (visitor.visitReceiver visit receiver) := by
  intro state
  cases receiver with
  | none => exact .pure .none
  | some padded =>
      refine (GapVisitor.rightPadded_walks walks.gaps .methodSelect (children _ (by simp)) state).mono ?_
      rintro _ left ⟨padded', rfl, walked⟩
      exact .some walked

theorem visitForm_walks
    {form : Form Tree}
    (children : forall child, child ∈ form.children -> WalksTo relation.child child (visit child)) :
    WalksTo (WalkedForm relation) form (visitor.visitForm visit form) := by
  have subset {trees : List Tree} (within : forall tree, tree ∈ trees -> tree ∈ form.children) :
      forall tree, tree ∈ trees -> WalksTo relation.child tree (visit tree) :=
    fun tree member => children tree (within tree member)
  intro state
  cases form with
  | compilationUnit dialect source statements eof =>
      refine .bind (GapVisitor.rightPaddedList_walks walks.gaps _ children state) fun statements middle walked => ?_
      exact .bind (walks.gaps.space _ _ middle) fun eof left atEof => .pure ⟨_, rfl, .compilationUnit walked atEof⟩
  | block statements closing =>
      refine .bind (GapVisitor.rightPaddedList_walks walks.gaps _ children state) fun statements middle walked => ?_
      exact .bind (walks.gaps.space _ _ middle) fun closing left atEnd => .pure ⟨_, rfl, .block walked atEnd⟩
  | conditional condition consequence alternative =>
      refine .bind (children condition (by simp [Form.children]) state) ?_
      rintro _ first ⟨condition, rfl, atCondition⟩
      refine .bind (GapVisitor.rightPadded_walks walks.gaps _ (children _ (by simp [Form.children])) first) ?_
      rintro _ second ⟨consequence, rfl, atConsequence⟩
      refine .bind (visitOption_walks (subset (by simp_all [Form.children])) second) fun alternative left walked => ?_
      exact .pure ⟨_, rfl, .conditional atCondition atConsequence walked⟩
  | otherwise body =>
      refine .bind (GapVisitor.rightPadded_walks walks.gaps _ (children _ (by simp [Form.children])) state) ?_
      rintro _ left ⟨body, rfl, walked⟩
      exact .pure ⟨_, rfl, .otherwise walked⟩
  | returns value =>
      exact .bind (visitOption_walks children state) fun value left walked => .pure ⟨_, rfl, .returns walked⟩
  | assignment target value typeTag =>
      refine .bind (children target (by simp [Form.children]) state) ?_
      rintro _ middle ⟨target, rfl, atTarget⟩
      refine .bind (GapVisitor.leftPadded_walks walks.gaps _ (children _ (by simp [Form.children])) middle) ?_
      rintro _ left ⟨value, rfl, walked⟩
      exact .pure ⟨_, rfl, .assignment atTarget walked⟩
  | binary leftTree operator right typeTag =>
      refine .bind (children leftTree (by simp [Form.children]) state) ?_
      rintro _ first ⟨leftTree, rfl, atLeft⟩
      refine .bind (GapVisitor.operator_walks walks.gaps operator first) fun operator second atOperator => ?_
      refine .bind (children right (by simp [Form.children]) second) ?_
      rintro _ left ⟨right, rfl, walked⟩
      exact .pure ⟨_, rfl, .binary atLeft atOperator walked⟩
  | identifier name typeTag => exact .pure ⟨_, rfl, .identifier⟩
  | literal source typeTag => exact .pure ⟨_, rfl, .literal⟩
  | fieldAccess target name typeTag =>
      refine .bind (children target (by simp [Form.children]) state) ?_
      rintro _ middle ⟨target, rfl, atTarget⟩
      refine .bind (GapVisitor.leftPadded_walks walks.gaps _ (children _ (by simp [Form.children])) middle) ?_
      rintro _ left ⟨name, rfl, walked⟩
      exact .pure ⟨_, rfl, .fieldAccess atTarget walked⟩
  | call receiver name list typeTag =>
      refine .bind (visitReceiver_walks walks (subset (by simp_all [Form.children])) state)
        fun receiver first atReceiver => ?_
      refine .bind (children name (by simp [Form.children]) first) ?_
      rintro _ second ⟨name, rfl, atName⟩
      refine .bind (walks.list visit _ list (subset (by simp_all [Form.children])) second) fun list left walked => ?_
      exact .pure ⟨_, rfl, .call atReceiver atName walked⟩
  | declaration returnType name list body =>
      refine .bind (visitOption_walks (subset (by simp_all [Form.children])) state)
        fun returnType first atType => ?_
      refine .bind (children name (by simp [Form.children]) first) ?_
      rintro _ second ⟨name, rfl, atName⟩
      refine .bind (walks.list visit _ list (subset (by simp_all [Form.children])) second) fun list third walked => ?_
      refine .bind (visitOption_walks (subset (by simp_all [Form.children])) third) fun body left atBody => ?_
      exact .pure ⟨_, rfl, .declaration atType atName walked atBody⟩
  | parentheses inner =>
      refine .bind (GapVisitor.rightPadded_walks walks.gaps _ (children _ (by simp [Form.children])) state) ?_
      rintro _ left ⟨inner, rfl, walked⟩
      exact .pure ⟨_, rfl, .parentheses walked⟩
  | collection kind list typeTag =>
      exact .bind (walks.list visit _ list children state) fun list left walked =>
        .pure ⟨_, rfl, .collection walked⟩
  | empty => exact .pure ⟨_, rfl, .empty⟩
  | unknown text => exact .pure ⟨_, rfl, .unknown⟩

theorem descend_walks
    {tree : Tree}
    (children : forall child, child ∈ tree.children -> WalksTo relation.child child (visit child)) :
    WalksTo (WalkedParts relation) tree (visitor.descend visit tree) := by
  intro state
  refine .bind (walks.gaps.space _ _ state) fun leading first atLeading => ?_
  refine .bind (walks.gaps.markers _ first) fun markers second atMarkers => ?_
  refine .bind (visitForm_walks walks children second) ?_
  rintro _ left ⟨form, rfl, walked⟩
  exact .pure ⟨_, rfl, .mk atLeading atMarkers walked⟩

/-- The hooks of a node and the walk through it. -/
theorem visitIfAccepted_walks
    {tree : Tree}
    (children : forall child, child ∈ tree.children -> WalksTo relation.child child (visit child))
    {state : VisitState Tree PaddingFrame σ γ}
    (isNew : state.cursor.top.messages = .empty) :
    (visitor.traversal.visitIfAccepted visit tree).Yields state fun value last =>
      exists opened middle walked closed tree', value = some tree' ∧
        relation.opens (viewOf state) tree opened ∧ WalkedParts relation opened tree walked middle ∧
        relation.closes walked middle closed tree' ∧ viewOf last = closed.observed tree.id := by
  obtain ⟨_, opened, before, rfl, goesIn, opens⟩ := walks.before tree state isNew
  obtain ⟨_, walked, descended, middle, rfl, atParts⟩ := descend_walks walks children opened
  obtain ⟨_, closed, after, tree', rfl, closes⟩ := walks.after middle walked
  have inside : visitor.traversal.visitInside visit (some tree) opened = (.ok (some tree'), closed) := by
    have dispatched : visitor.traversal.dispatch visit tree opened = (.ok (some middle), walked) := by
      change visitor.dispatch (visitor.descend visit) tree opened = _
      rw [walks.dispatch]
      exact descended
    change (visitor.traversal.dispatch visit tree >>= _) opened = _
    rw [bind_apply, dispatched]
    exact after
  refine ⟨some tree', { closed with stop := closed.stop.observe tree.id }, ?_, _, middle, _, _, tree', rfl,
    opens, atParts, closes, rfl⟩
  have wanted : visitor.traversal.wants tree state = (.ok true, state) := by
    change ((visitor.accepts tree >>= fun isWanted => if isWanted then
      (if tree.isSource then visitor.acceptsSource tree else pure true) else pure false) :
        TreeVisit σ γ Bool) state = _
    rw [walks.accepts, walks.acceptsSource]
    cases tree.isSource <;> rfl
  change (visitor.traversal.wants tree >>= fun isWanted => if isWanted then
    visitor.traversal.visitAccepted visit tree else pure (some tree)) state = _
  rw [bind_apply, wanted]
  exact Traversal.visitAccepted_of_ok before goesIn inside

theorem enter_walks
    {tree : Tree}
    (children : forall child, child ∈ tree.children -> WalksTo relation.child child (visit child)) :
    WalksTo (WalkedNode relation) tree
      (visitor.traversal.enter (visitor.traversal.drainWithin 0) visit tree) := by
  intro state
  by_cases stopped : state.stop.isStopped = true
  · exact ⟨some tree, state, Traversal.enter_of_stopped stopped, tree, rfl, .stopped stopped⟩
  · rw [Bool.not_eq_true] at stopped
    obtain ⟨_, left, inner, opened, middle, walked, closed, tree', rfl, opens, atParts, closes, atEnd⟩ :=
      visitIfAccepted_walks walks children (show (state.inside tree).cursor.top.messages = .empty from rfl)
    have located : Traversal.locating (visitor.traversal.visitIfAccepted visit tree) (state.inside tree) =
        (.ok (some tree'), left) := by
      rw [Traversal.locating, inner]
    have related : WalkedNode relation (viewOf state) tree
        (((viewOf state).returned (viewOf left))) tree' := by
      rw [atEnd]
      exact .walked stopped opens atParts closes
    by_cases nested : state.depth = 0
    · exact ⟨some tree', _, Traversal.enter_of_outermost stopped nested located, tree', rfl, related⟩
    · exact ⟨some tree', _, Traversal.enter_of_nested stopped nested located, tree', rfl, related⟩

/-- What holds between a node and what is made of it, given that it holds of the children, holds of runs. -/
theorem run_walks
    (node : forall view tree left tree', WalkedNode relation view tree left tree' ->
      relation.child view tree left tree')
    (tree : Tree) :
    WalksTo relation.child tree (visitor.run tree) := by
  have within (depth : Nat) : forall tree : Tree, tree.height < depth -> WalksTo relation.child tree
      (visitor.traversal.visitWithin (visitor.traversal.drainWithin 0) depth tree) := by
    induction depth with
    | zero => exact fun tree isLow => absurd isLow (Nat.not_lt_zero _)
    | succ depth ih =>
        intro tree isLow state
        refine (enter_walks walks (fun child member => ih child ?_) state).mono ?_
        · have lower : child.height < tree.height := by
            obtain ⟨head, form⟩ := tree
            exact Tree.height_lt_of_mem_children member
          omega
        · rintro _ left ⟨tree', rfl, walked⟩
          exact ⟨tree', rfl, node _ _ _ _ walked⟩
  intro state
  have bound : visitor.traversal.visitBounded (visitor.traversal.drainWithin 0) tree state =
      visitor.traversal.visitWithin (visitor.traversal.drainWithin 0) (tree.height + 1) tree state := by
    change visitor.traversal.visitWithin _ (visitor.depthBound _ _ + 1) _ _ = _
    rw [walks.depthBound]
  have runs : visitor.run tree state =
      visitor.traversal.visitBounded (visitor.traversal.drainWithin 0) tree state := by
    change visitor.traversal.visitBounded (visitor.traversal.drainWithin (visitor.generations _)) _ _ = _
    rw [walks.generations]
  rw [Yields, runs, bound]
  exact within _ tree (Nat.lt_succ_self _) state

end Visitor
end Walk
end Java

end Success

/-!
## Every visit of a walk

A walk through a tree is made of visits, each in the frames that it finds. `Throughout` says that something holds of
every visit of a walk that nothing stops. What a visitor does between its visits is given by `steps`, as a relation
of parts for every relation that stands for the visits of nodes.

The condition is the largest one that passes from a visit to those inside it. A visit satisfies it as soon as those
inside it do, as long as the steps in between do not depend on the relation that stands for them.
-/

namespace Java

variable {α : Type}

/-- What holds between a node before and after its visit. -/
abbrev VisitRelation := View -> Tree -> View -> Tree -> Prop

/-- Something holds of a visit that nothing stops and of all visits inside it. -/
def Throughout
    (steps : VisitRelation -> WalkRelation)
    (holds : VisitRelation)
    (view : View)
    (old : Tree)
    (left : View)
    (new : Tree) : Prop :=
  ∃ visits : VisitRelation,
    (forall view old left new, visits view old left new ->
      (view.stop = .never ∧ left.stop = .never) ∧ holds view old left new ∧
        WalkedNode (steps visits) view old left new) ∧
      visits view old left new

/-! ### Walks that go on -/

/-- From where nothing stops a walk nothing stops it later, and the second relation holds as well. -/
def GoesOnAs (relates stronger : View -> α -> View -> α -> Prop) : Prop :=
  forall {view old left new}, relates view old left new -> view.stop = .never ->
    left.stop = .never ∧ stronger view old left new

/-- Each step of a walk that goes on is one of another walk. -/
structure WalkRelation.GoesOnAs (relation stronger : WalkRelation) : Prop where
  space : forall place, Java.GoesOnAs (relation.space place) (stronger.space place)
  markers : Java.GoesOnAs relation.markers stronger.markers
  child : Java.GoesOnAs relation.child stronger.child
  list : forall place, Java.GoesOnAs (relation.list place) (stronger.list place)
  opens : forall {view tree left}, relation.opens view tree left -> view.stop = .never ->
    left.stop = .never ∧ stronger.opens view tree left
  closes : Java.GoesOnAs relation.closes stronger.closes

section Layers

variable {relation stronger : WalkRelation} (goesOn : relation.GoesOnAs stronger)

include goesOn

theorem walkedElement_goesOn (place : ElementPlace) :
    GoesOnAs (WalkedElement relation place) (WalkedElement stronger place) := by
  intro view old left new walked start
  cases walked with
  | mk element after markers =>
      obtain ⟨back, element⟩ := goesOn.child element start
      obtain ⟨behind, after⟩ := goesOn.space _ after back
      obtain ⟨last, markers⟩ := goesOn.markers markers behind
      exact ⟨last, .mk element after markers⟩

theorem walkedElements_goesOn (place : ElementPlace) :
    GoesOnAs (WalkedElements relation place) (WalkedElements stronger place) := by
  intro view old left new walked start
  induction walked with
  | nil => exact ⟨start, .nil⟩
  | cons first _ ih =>
      obtain ⟨middle, first⟩ := walkedElement_goesOn goesOn place first start
      obtain ⟨last, others⟩ := ih middle
      exact ⟨last, .cons first others⟩

theorem walkedOperand_goesOn (place : OperandPlace) :
    GoesOnAs (WalkedOperand relation place) (WalkedOperand stronger place) := by
  intro view old left new walked start
  cases walked with
  | mk before element markers =>
      obtain ⟨middle, before⟩ := goesOn.space _ before start
      obtain ⟨back, element⟩ := goesOn.child element middle
      obtain ⟨last, markers⟩ := goesOn.markers markers back
      exact ⟨last, .mk before element markers⟩

theorem walkedOperator_goesOn : GoesOnAs (WalkedOperator relation) (WalkedOperator stronger) := by
  intro view old left new walked start
  cases walked with
  | mk before markers =>
      obtain ⟨back, before⟩ := goesOn.space _ before start
      obtain ⟨last, markers⟩ := goesOn.markers markers back
      exact ⟨last, .mk before markers⟩

omit goesOn in
theorem walkedOption_goesOn
    {child further : View -> α -> View -> α -> Prop}
    (goesOn : GoesOnAs child further) :
    GoesOnAs (WalkedOption child) (WalkedOption further) := by
  intro view old left new walked start
  cases walked with
  | none => exact ⟨start, .none⟩
  | some walked =>
      obtain ⟨last, walked⟩ := goesOn walked start
      exact ⟨last, .some walked⟩

theorem walkedForm_goesOn : GoesOnAs (WalkedForm relation) (WalkedForm stronger) := by
  intro view old left new walked start
  cases walked with
  | compilationUnit statements eof =>
      obtain ⟨middle, statements⟩ := walkedElements_goesOn goesOn _ statements start
      obtain ⟨last, eof⟩ := goesOn.space _ eof middle
      exact ⟨last, .compilationUnit statements eof⟩
  | block statements closing =>
      obtain ⟨middle, statements⟩ := walkedElements_goesOn goesOn _ statements start
      obtain ⟨last, closing⟩ := goesOn.space _ closing middle
      exact ⟨last, .block statements closing⟩
  | conditional condition consequence alternative =>
      obtain ⟨first, condition⟩ := goesOn.child condition start
      obtain ⟨second, consequence⟩ := walkedElement_goesOn goesOn _ consequence first
      obtain ⟨last, alternative⟩ := walkedOption_goesOn goesOn.child alternative second
      exact ⟨last, .conditional condition consequence alternative⟩
  | otherwise body =>
      obtain ⟨last, body⟩ := walkedElement_goesOn goesOn _ body start
      exact ⟨last, .otherwise body⟩
  | returns value =>
      obtain ⟨last, value⟩ := walkedOption_goesOn goesOn.child value start
      exact ⟨last, .returns value⟩
  | assignment target value =>
      obtain ⟨middle, target⟩ := goesOn.child target start
      obtain ⟨last, value⟩ := walkedOperand_goesOn goesOn _ value middle
      exact ⟨last, .assignment target value⟩
  | binary leftTree operator right =>
      obtain ⟨first, leftTree⟩ := goesOn.child leftTree start
      obtain ⟨second, operator⟩ := walkedOperator_goesOn goesOn operator first
      obtain ⟨last, right⟩ := goesOn.child right second
      exact ⟨last, .binary leftTree operator right⟩
  | identifier => exact ⟨start, .identifier⟩
  | literal => exact ⟨start, .literal⟩
  | fieldAccess target name =>
      obtain ⟨middle, target⟩ := goesOn.child target start
      obtain ⟨last, name⟩ := walkedOperand_goesOn goesOn _ name middle
      exact ⟨last, .fieldAccess target name⟩
  | call receiver name list =>
      obtain ⟨first, receiver⟩ := walkedOption_goesOn (walkedElement_goesOn goesOn _) receiver start
      obtain ⟨second, name⟩ := goesOn.child name first
      obtain ⟨last, list⟩ := goesOn.list _ list second
      exact ⟨last, .call receiver name list⟩
  | declaration returnType name list body =>
      obtain ⟨first, returnType⟩ := walkedOption_goesOn goesOn.child returnType start
      obtain ⟨second, name⟩ := goesOn.child name first
      obtain ⟨third, list⟩ := goesOn.list _ list second
      obtain ⟨last, body⟩ := walkedOption_goesOn goesOn.child body third
      exact ⟨last, .declaration returnType name list body⟩
  | parentheses inner =>
      obtain ⟨last, inner⟩ := walkedElement_goesOn goesOn _ inner start
      exact ⟨last, .parentheses inner⟩
  | collection list =>
      obtain ⟨last, list⟩ := goesOn.list _ list start
      exact ⟨last, .collection list⟩
  | empty => exact ⟨start, .empty⟩
  | unknown => exact ⟨start, .unknown⟩

/-- A walk through a node that goes on is one of the other walk. -/
theorem walkedNode_goesOn : GoesOnAs (WalkedNode relation) (WalkedNode stronger) := by
  intro view old left new walked start
  cases walked with
  | stopped stopped =>
      rw [start] at stopped
      cases stopped
  | walked on opens parts closes =>
      obtain ⟨opened, opens⟩ := goesOn.opens opens start
      cases parts with
      | mk leading markers form =>
          obtain ⟨first, leading⟩ := goesOn.space _ leading opened
          obtain ⟨second, markers⟩ := goesOn.markers markers first
          obtain ⟨inner, form⟩ := walkedForm_goesOn goesOn form second
          obtain ⟨closed, closes⟩ := goesOn.closes closes inner
          refine ⟨?_, .walked on opens (.mk leading markers form) closes⟩
          rw [View.observed, View.returned, closed]
          rfl

end Layers

/-! ### Visits inside visits -/

/-- Whatever stands for the visits of nodes, the steps in between are the same, and none of them stops the walk. -/
def AreSteps (steps : VisitRelation -> WalkRelation) : Prop :=
  forall {child further : VisitRelation}, GoesOnAs child further -> (steps child).GoesOnAs (steps further)

section Visits

variable {steps : VisitRelation -> WalkRelation} {condition : VisitRelation}
variable {view left : View} {old new : Tree}

theorem Throughout.holds (throughout : Throughout steps condition view old left new) : condition view old left new := by
  obtain ⟨visits, closed, visit⟩ := throughout
  exact (closed _ _ _ _ visit).2.1

/-- What holds throughout a visit holds throughout those inside it. -/
theorem Throughout.walked
    (areSteps : AreSteps steps)
    (throughout : Throughout steps condition view old left new) :
    WalkedNode (steps (Throughout steps condition)) view old left new := by
  obtain ⟨visits, closed, visit⟩ := throughout
  obtain ⟨⟨start, -⟩, -, walked⟩ := closed _ _ _ _ visit
  have further : GoesOnAs visits (Throughout steps condition) :=
    fun visit _ => ⟨(closed _ _ _ _ visit).1.2, visits, closed, visit⟩
  exact (walkedNode_goesOn (areSteps further) walked start).2

/-- What holds throughout the visits inside a visit, and of the visit itself, holds throughout it. -/
theorem throughout_of_walked
    {child : VisitRelation}
    (areSteps : AreSteps steps)
    (inside : GoesOnAs child (Throughout steps condition))
    (start : view.stop = .never)
    (here : condition view old left new)
    (walked : WalkedNode (steps child) view old left new) :
    Throughout steps condition view old left new := by
  refine ⟨fun view old left new => (view.stop = .never ∧ left.stop = .never) ∧ condition view old left new ∧
    WalkedNode (steps (Throughout steps condition)) view old left new, ?_, ?_⟩
  · rintro view old left new ⟨on, here, walked⟩
    refine ⟨on, here, (walkedNode_goesOn (areSteps ?_) walked on.1).2⟩
    intro view old left new throughout _
    obtain ⟨visits, closed, visit⟩ := id throughout
    have stops := (closed _ _ _ _ visit).1
    exact ⟨stops.2, stops, throughout.holds, throughout.walked areSteps⟩
  · obtain ⟨last, walked⟩ := walkedNode_goesOn (areSteps inside) walked start
    exact ⟨⟨start, last⟩, here, walked⟩

end Visits

end Java

end Lossless
