import Lossless.Proofs.Visit.Steps

/-!
# Two walks side by side

Two walks through one node differ in how they visit its children, and perhaps in the visitors that walk. A relation
between steps that composing them passes on holds of the walks when it holds of the hooks of the visitors and of the
visits of the children, each at the frames at which its child is visited: those of the node, and on top of them one for
each padding around the child.
-/

namespace Lossless

variable {τ ω σ γ α β : Type}

/-- A relation between two steps that run at the same frames, for every type of results. -/
abbrev StepRelation (τ ω σ γ : Type) :=
  List (FrameValue τ ω) -> forall α : Type, VisitM τ ω σ γ α -> VisitM τ ω σ γ α -> Prop

/-- A relation that composed steps have when their parts do. -/
structure StepRelation.IsCompositional (relates : StepRelation τ ω σ γ) : Prop where
  pure : forall {frames α} (value : α), relates frames α (pure value) (pure value)
  bind : forall {frames α β step other next following},
    relates frames α step other -> (forall value, relates frames β (next value) (following value)) ->
      relates frames β (step >>= next) (other >>= following)
  within : forall {frames α step other} (place), relates (.padding place :: frames) α step other ->
    relates frames α (VisitM.within (.padding place) step) (VisitM.within (.padding place) other)
  /-- A failure of the first step is raised only after the second one is done. -/
  defer : forall {frames α β δ step other second otherSecond}
    {next following : Except Error α -> β -> VisitM τ ω σ γ δ},
    relates frames α step other -> relates frames β second otherSecond ->
      (forall result value, relates frames δ (next (.ok result) value) (following (.ok result) value)) ->
      (forall error value, next (.error error) value = throw error) ->
      (forall error value, following (.error error) value = throw error) ->
      relates frames δ (VisitM.attempt step >>= fun outcome => second >>= next outcome)
        (VisitM.attempt other >>= fun outcome => otherSecond >>= following outcome)

/-- The markers of a set are visited one by one. -/
theorem StepRelation.IsCompositional.markers
    {relates : StepRelation τ ω σ γ}
    (isCompositional : relates.IsCompositional)
    {frames : List (FrameValue τ ω)}
    {visitMarker otherMarker : Marker Space -> VisitM τ ω σ γ (Marker Space)}
    (each : forall marker, relates frames _ (visitMarker marker) (otherMarker marker))
    (markers : Markers Space) :
    relates frames _ (visitMarkersWith visitMarker markers) (visitMarkersWith otherMarker markers) := by
  have all (list : List (Marker Space)) :
      relates frames _ (list.mapM visitMarker) (list.mapM otherMarker) := by
    induction list with
    | nil => exact isCompositional.pure _
    | cons first rest ih =>
        rw [List.mapM_cons, List.mapM_cons]
        exact isCompositional.bind (each first) fun _ =>
          isCompositional.bind ih fun _ => isCompositional.pure _
  unfold visitMarkersWith
  split
  · exact isCompositional.pure _
  · exact isCompositional.bind (all _) fun _ => isCompositional.pure _

/-- A child, with the paddings between its frame and that of its node, the innermost one first. -/
structure PaddedChild (τ ω : Type) where
  child : τ
  paddings : List ω

namespace PaddedChild

/-- A child without padding. -/
def bare (child : τ) : PaddedChild τ ω := ⟨child, []⟩

/-- The frames on top of which the frame of the child stands. -/
def framesOn
    (padded : PaddedChild τ ω)
    (frames : List (FrameValue τ ω)) : List (FrameValue τ ω) :=
  padded.paddings.map .padding ++ frames

end PaddedChild

/-! ## Syntax trees -/

namespace Java

/-- The children of a list in its frames. -/
def ContainerPlace.paddedChildren
    (place : ContainerPlace)
    (list : Container α) : List (PaddedChild α PaddingFrame) :=
  list.padded.map fun padded => ⟨padded.element, [.element place.element, .container place]⟩

/-- The children of a form, each with the paddings around it, in source order. -/
def Form.paddedChildren : Form α -> List (PaddedChild α PaddingFrame)
  | compilationUnit _ _ statements _ =>
      statements.map fun padded => ⟨padded.element, [.element .compilationUnitStatement]⟩
  | block statements _ => statements.map fun padded => ⟨padded.element, [.element .blockStatement]⟩
  | conditional condition consequence alternative =>
      .bare condition :: ⟨consequence.element, [.element .ifThen]⟩ ::
        alternative.toList.map PaddedChild.bare
  | otherwise body => [⟨body.element, [.element .elseBody]⟩]
  | returns value => value.toList.map PaddedChild.bare
  | assignment target value _ => [.bare target, ⟨value.element, [.operand .assignmentValue]⟩]
  | binary left _ right _ => [.bare left, .bare right]
  | identifier .. => []
  | literal .. => []
  | fieldAccess target name _ => [.bare target, ⟨name.element, [.operand .fieldAccessName]⟩]
  | call receiver name arguments _ =>
      (receiver.map fun padded => ⟨padded.element, [.element .methodSelect]⟩).toList ++
        .bare name :: ContainerPlace.methodInvocationArguments.paddedChildren arguments
  | declaration returnType name parameters body =>
      returnType.toList.map PaddedChild.bare ++
        .bare name :: ContainerPlace.methodDeclarationParameters.paddedChildren parameters ++
          body.toList.map PaddedChild.bare
  | parentheses inner => [⟨inner.element, [.element .parentheses]⟩]
  | collection _ elements _ => ContainerPlace.collectionElements.paddedChildren elements
  | empty => []
  | unknown _ => []

/-- The padded children are the children. -/
theorem Form.map_child_paddedChildren (form : Form α) :
    form.paddedChildren.map PaddedChild.child = form.children := by
  cases form with
  | conditional condition consequence alternative => cases alternative <;> rfl
  | returns value => cases value <;> rfl
  | call receiver name arguments typeTag =>
      cases receiver <;>
        simp [paddedChildren, children, ContainerPlace.paddedChildren, Container.elements,
          RightPadded.elements, PaddedChild.bare]
  | declaration returnType name parameters body =>
      cases returnType <;> cases body <;>
        simp [paddedChildren, children, ContainerPlace.paddedChildren, Container.elements,
          RightPadded.elements, PaddedChild.bare]
  | _ =>
      simp [paddedChildren, children, ContainerPlace.paddedChildren, Container.elements,
        RightPadded.elements, PaddedChild.bare]

section Walk

variable {relates : StepRelation Tree PaddingFrame σ γ}
variable (isCompositional : relates.IsCompositional)
variable {visit other : Tree -> TreeVisit σ γ (Option Tree)}
variable {frames : List TreeFrame}

section Gaps

variable {visitor otherVisitor : GapVisitor σ γ}
variable (spaces : forall {frames} place space,
  relates frames _ (visitor.space place space) (otherVisitor.space place space))
variable (markers : forall {frames} marker, relates frames _ (visitor.marker marker) (otherVisitor.marker marker))

include isCompositional spaces markers

theorem GapVisitor.rightPadded_relates
    (place : ElementPlace)
    (padded : RightPadded Tree)
    (child : relates (.padding (.element place) :: frames) _ (visit padded.element) (other padded.element)) :
    relates frames _ (visitor.rightPadded visit place padded) (otherVisitor.rightPadded other place padded) := by
  refine isCompositional.bind (isCompositional.within _ child) fun element => ?_
  cases element with
  | none => exact isCompositional.pure _
  | some element =>
      exact isCompositional.bind (spaces _ _) fun _ =>
        isCompositional.bind (isCompositional.markers markers _) fun _ => isCompositional.pure _

theorem GapVisitor.rightPaddedList_relates
    (place : ElementPlace)
    (list : List (RightPadded Tree))
    (children : forall padded, padded ∈ list ->
      relates (.padding (.element place) :: frames) _ (visit padded.element) (other padded.element)) :
    relates frames _ (visitor.rightPaddedList visit place list) (otherVisitor.rightPaddedList other place list) := by
  induction list with
  | nil => exact isCompositional.pure _
  | cons first rest ih =>
      rw [List.forall_mem_cons] at children
      exact isCompositional.bind
        (rightPadded_relates isCompositional spaces markers place first children.1) fun _ =>
          isCompositional.bind (ih children.2) fun _ => isCompositional.pure _

theorem GapVisitor.leftPadded_relates
    (place : OperandPlace)
    (padded : LeftPadded Tree)
    (child : relates (.padding (.operand place) :: frames) _ (visit padded.element) (other padded.element)) :
    relates frames _ (visitor.leftPadded visit place padded) (otherVisitor.leftPadded other place padded) := by
  refine isCompositional.bind (isCompositional.within _ ?_) fun parts => ?_
  · exact isCompositional.bind (spaces _ _) fun _ =>
      isCompositional.bind child fun _ => isCompositional.pure _
  · obtain ⟨before, _ | element⟩ := parts
    · exact isCompositional.pure _
    · exact isCompositional.bind (isCompositional.markers markers _) fun _ => isCompositional.pure _

theorem GapVisitor.operator_relates (padded : LeftPadded Operator) :
    relates frames _ (visitor.operator padded) (otherVisitor.operator padded) := by
  refine isCompositional.defer (isCompositional.within _ (spaces _ _)) (isCompositional.markers markers _) ?_
    (fun _ _ => rfl) fun _ _ => rfl
  exact fun _ _ => isCompositional.bind (isCompositional.pure _) fun _ => isCompositional.pure _

variable (frames) in
theorem GapVisitor.container_relates
    (place : ContainerPlace)
    (list : Container Tree)
    (children : forall padded, padded ∈ place.paddedChildren list ->
      relates (padded.framesOn frames) _ (visit padded.child) (other padded.child)) :
    relates frames _ (visitor.container visit place list) (otherVisitor.container other place list) := by
  refine isCompositional.bind (isCompositional.within _ ?_) fun parts => ?_
  · refine isCompositional.bind (spaces _ _) fun _ => isCompositional.bind ?_ fun _ => isCompositional.pure _
    exact rightPaddedList_relates isCompositional spaces markers _ _ fun padded member =>
      children _ (List.mem_map_of_mem member)
  · exact isCompositional.bind (isCompositional.markers markers _) fun _ => isCompositional.pure _

end Gaps

namespace Visitor

theorem visitOption_relates
    (isCompositional : relates.IsCompositional)
    (tree : Option Tree)
    (child : forall padded, padded ∈ tree.toList.map PaddedChild.bare ->
      relates (padded.framesOn frames) _ (visit padded.child) (other padded.child)) :
    relates frames _ (visitOption visit tree) (visitOption other tree) := by
  cases tree with
  | none => exact isCompositional.pure _
  | some tree => exact child _ List.mem_cons_self

variable {visitor otherVisitor : Visitor σ γ}
variable (spaces : forall {frames} place space,
  relates frames _ (visitor.space place space) (otherVisitor.space place space))
variable (markers : forall {frames} marker, relates frames _ (visitor.marker marker) (otherVisitor.marker marker))
variable (lists : forall {frames} place list,
  (forall padded, padded ∈ ContainerPlace.paddedChildren place list ->
    relates (padded.framesOn frames) _ (visit padded.child) (other padded.child)) ->
  relates frames _ (visitor.visitContainer visit place list) (otherVisitor.visitContainer other place list))

include isCompositional spaces markers lists

/-- The parts of a form are visited alike when each child is, below the paddings around it. -/
theorem visitForm_relates
    (form : Form Tree)
    (children : forall padded, padded ∈ form.paddedChildren ->
      relates (padded.framesOn frames) _ (visit padded.child) (other padded.child)) :
    relates frames _ (visitor.visitForm visit form) (otherVisitor.visitForm other form) := by
  have elements := @GapVisitor.rightPaddedList_relates _ _ _ isCompositional visit other frames
    visitor.toGapVisitor otherVisitor.toGapVisitor spaces markers
  have element := @GapVisitor.rightPadded_relates _ _ _ isCompositional visit other frames
    visitor.toGapVisitor otherVisitor.toGapVisitor spaces markers
  have operand := @GapVisitor.leftPadded_relates _ _ _ isCompositional visit other frames
    visitor.toGapVisitor otherVisitor.toGapVisitor spaces markers
  have option := @visitOption_relates _ _ _ visit other frames isCompositional
  have bind {α β : Type} {step stepOther : TreeVisit σ γ α} {next following : α -> TreeVisit σ γ β} :
      relates frames _ step stepOther -> (forall value, relates frames _ (next value) (following value)) ->
        relates frames _ (step >>= next) (stepOther >>= following) :=
    isCompositional.bind
  have done {α : Type} (value : α) : relates frames _ (pure value) (pure value) := isCompositional.pure value
  cases form with
  | compilationUnit dialect source statements eof =>
      refine bind (elements _ _ fun padded member => ?_) fun _ => bind (spaces _ _) fun _ => done _
      exact children _ (List.mem_map_of_mem member)
  | block statements closing =>
      refine bind (elements _ _ fun padded member => ?_) fun _ => bind (spaces _ _) fun _ => done _
      exact children _ (List.mem_map_of_mem member)
  | conditional condition consequence alternative =>
      simp only [Form.paddedChildren, List.forall_mem_cons] at children
      refine bind children.1 fun condition => ?_
      cases condition with
      | none => exact done _
      | some condition =>
          refine bind (element _ _ children.2.1) fun consequence => ?_
          cases consequence with
          | none => exact done _
          | some consequence => exact bind (option _ children.2.2) fun _ => done _
  | otherwise body =>
      refine bind (element _ _ (children _ List.mem_cons_self)) fun body => ?_
      cases body <;> exact done _
  | returns value => exact bind (option _ children) fun _ => done _
  | assignment target value typeTag =>
      simp only [Form.paddedChildren, List.forall_mem_cons] at children
      refine bind children.1 fun target => ?_
      cases target with
      | none => exact done _
      | some target =>
          refine bind (operand _ _ children.2.1) fun value => ?_
          cases value <;> exact done _
  | binary left operator right typeTag =>
      simp only [Form.paddedChildren, List.forall_mem_cons] at children
      refine bind children.1 fun left => ?_
      cases left with
      | none => exact done _
      | some left =>
          refine bind (GapVisitor.operator_relates isCompositional spaces markers _) fun _ => ?_
          refine bind children.2.1 fun right => ?_
          cases right <;> exact done _
  | identifier name typeTag => exact done _
  | literal source typeTag => exact done _
  | fieldAccess target name typeTag =>
      simp only [Form.paddedChildren, List.forall_mem_cons] at children
      refine bind children.1 fun target => ?_
      cases target with
      | none => exact done _
      | some target =>
          refine bind (operand _ _ children.2.1) fun name => ?_
          cases name <;> exact done _
  | call receiver name arguments typeTag =>
      simp only [Form.paddedChildren, List.forall_mem_append, List.forall_mem_cons] at children
      refine bind ?_ fun _ => bind children.2.1 fun name => ?_
      · cases receiver with
        | none => exact done _
        | some padded => exact element _ _ (children.1 _ List.mem_cons_self)
      · cases name with
        | none => exact done _
        | some name => exact bind (lists _ _ children.2.2) fun _ => done _
  | declaration returnType name parameters body =>
      simp only [Form.paddedChildren, List.forall_mem_append, List.forall_mem_cons] at children
      refine bind (option _ children.1.1) fun _ => bind children.1.2.1 fun name => ?_
      cases name with
      | none => exact done _
      | some name =>
          exact bind (lists _ _ children.1.2.2) fun _ => bind (option _ children.2) fun _ => done _
  | parentheses inner =>
      refine bind (element _ _ (children _ List.mem_cons_self)) fun inner => ?_
      cases inner <;> exact done _
  | collection kind elements typeTag => exact bind (lists _ _ children) fun _ => done _
  | empty => exact done _
  | unknown text => exact done _

variable (frames) in
/-- A node is walked alike when each child is visited alike, below the paddings around it. -/
theorem descend_relates
    (tree : Tree)
    (children : forall padded, padded ∈ tree.form.paddedChildren ->
      relates (padded.framesOn frames) _ (visit padded.child) (other padded.child)) :
    relates frames _ (visitor.descend visit tree) (otherVisitor.descend other tree) := by
  refine isCompositional.bind (spaces _ _) fun _ =>
    isCompositional.bind (isCompositional.markers markers _) fun _ =>
      isCompositional.bind (visitForm_relates isCompositional spaces markers lists _ children) fun form => ?_
  cases form <;> exact isCompositional.pure _

end Visitor
end Walk
end Java

/-! ## Data trees -/

namespace Json

/-- The children of a form, each with the paddings around it, in source order. -/
def Form.paddedChildren : Form α -> List (PaddedChild α PaddingFrame)
  | document _ value _ => [.bare value]
  | object members => members.map fun padded => ⟨padded.element, [.element]⟩
  | member key value => [⟨key.element, [.element]⟩, .bare value]
  | array values => values.map fun padded => ⟨padded.element, [.element]⟩
  | literal .. => []
  | identifier _ => []
  | empty => []

/-- The padded children are the children. -/
theorem Form.map_child_paddedChildren (form : Form α) :
    form.paddedChildren.map PaddedChild.child = form.children := by
  cases form <;> simp [paddedChildren, children, RightPadded.elements, PaddedChild.bare]

namespace Visitor

variable {relates : StepRelation Tree PaddingFrame σ γ}
variable (isCompositional : relates.IsCompositional)
variable {visit other : Tree -> TreeVisit σ γ (Option Tree)}
variable {frames : List (FrameValue Tree PaddingFrame)}
variable {visitor otherVisitor : Visitor σ γ}
variable (spaces : forall {frames} space, relates frames _ (visitor.space space) (otherVisitor.space space))
variable (markers : forall {frames} marker, relates frames _ (visitor.marker marker) (otherVisitor.marker marker))

include isCompositional spaces markers

theorem rightPadded_relates
    (padded : RightPadded Tree)
    (child : relates (.padding .element :: frames) _ (visit padded.element) (other padded.element)) :
    relates frames _ (visitor.rightPadded visit padded) (otherVisitor.rightPadded other padded) := by
  refine isCompositional.bind (isCompositional.within _ child) fun element => ?_
  cases element with
  | none => exact isCompositional.pure _
  | some element =>
      exact isCompositional.bind (spaces _) fun _ =>
        isCompositional.bind (isCompositional.markers markers _) fun _ => isCompositional.pure _

theorem rightPaddedList_relates
    (list : List (RightPadded Tree))
    (children : forall padded, padded ∈ list ->
      relates (.padding .element :: frames) _ (visit padded.element) (other padded.element)) :
    relates frames _ (visitor.rightPaddedList visit list) (otherVisitor.rightPaddedList other list) := by
  induction list with
  | nil => exact isCompositional.pure _
  | cons first rest ih =>
      rw [List.forall_mem_cons] at children
      exact isCompositional.bind
        (rightPadded_relates isCompositional spaces markers first children.1) fun _ =>
          isCompositional.bind (ih children.2) fun _ => isCompositional.pure _

/-- The parts of a form are visited alike when each child is, below the padding around it. -/
theorem visitForm_relates
    (form : Form Tree)
    (children : forall padded, padded ∈ form.paddedChildren ->
      relates (padded.framesOn frames) _ (visit padded.child) (other padded.child)) :
    relates frames _ (visitor.visitForm visit form) (otherVisitor.visitForm other form) := by
  have elements := @rightPaddedList_relates _ _ _ isCompositional visit other frames visitor otherVisitor spaces markers
  cases form with
  | document source value eof =>
      refine isCompositional.bind (children _ List.mem_cons_self) fun value => ?_
      cases value with
      | none => exact isCompositional.pure _
      | some value => exact isCompositional.bind (spaces _) fun _ => isCompositional.pure _
  | object members =>
      refine isCompositional.bind (elements _ fun padded member => ?_) fun _ => isCompositional.pure _
      exact children _ (List.mem_map_of_mem member)
  | member key value =>
      simp only [Form.paddedChildren, List.forall_mem_cons] at children
      refine isCompositional.bind
        (rightPadded_relates isCompositional spaces markers _ children.1) fun key => ?_
      cases key with
      | none => exact isCompositional.pure _
      | some key =>
          refine isCompositional.bind children.2.1 fun value => ?_
          cases value <;> exact isCompositional.pure _
  | array values =>
      refine isCompositional.bind (elements _ fun padded member => ?_) fun _ => isCompositional.pure _
      exact children _ (List.mem_map_of_mem member)
  | literal source value => exact isCompositional.pure _
  | identifier name => exact isCompositional.pure _
  | empty => exact isCompositional.pure _

variable (frames) in
/-- A node is walked alike when each child is visited alike, below the padding around it. -/
theorem descend_relates
    (tree : Tree)
    (children : forall padded, padded ∈ tree.form.paddedChildren ->
      relates (padded.framesOn frames) _ (visit padded.child) (other padded.child)) :
    relates frames _ (visitor.descend visit tree) (otherVisitor.descend other tree) := by
  refine isCompositional.bind (spaces _) fun _ =>
    isCompositional.bind (isCompositional.markers markers _) fun _ =>
      isCompositional.bind (visitForm_relates isCompositional spaces markers _ children) fun form => ?_
  cases form <;> exact isCompositional.pure _

end Visitor
end Json
end Lossless
