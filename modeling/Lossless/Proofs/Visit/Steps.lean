import Lossless.Cursor
import Lossless.Java.Visitor
import Lossless.Json.Visitor

/-!
# Steps of a walk

The walk through a node is put together from the hooks for spaces and markers and from the visits of the
children, by doing one step after another and by doing steps in the frame of a padding. A property of steps
that these ways of composing pass on holds of the walk when it holds of its parts.

Markers are a case of their own: those of an operator are visited even after the space before it failed. So
a property comes with a stronger one, which the steps on markers have.
-/

namespace Lossless

section Steps

variable {τ ω σ γ α β : Type}

namespace VisitState

/-- The state inside a new frame. -/
def entered
    (state : VisitState τ ω σ γ)
    (value : FrameValue τ ω) : VisitState τ ω σ γ :=
  { state with cursor := state.cursor.push value }

/-- A later state, back at the frames of this one. -/
def returned (state left : VisitState τ ω σ γ) : VisitState τ ω σ γ :=
  { left with cursor := state.cursor.returnTo left.cursor }

/-- The state in which the hooks of a node run. -/
def inside
    (state : VisitState τ ω σ γ)
    (tree : τ) : VisitState τ ω σ γ :=
  { state with depth := state.depth + 1 }.entered (.tree tree)

/-- A state after the queued visitor that left the other state. -/
def drained (state left : VisitState τ ω σ γ) : VisitState τ ω σ γ :=
  { state with
    cursor := state.cursor.returnTo left.cursor
    world := left.world }

end VisitState

namespace VisitM

theorem bind_apply
    (step : VisitM τ ω σ γ α)
    (next : α -> VisitM τ ω σ γ β)
    (state : VisitState τ ω σ γ) :
    (step >>= next) state =
      match step state with
      | (.ok value, left) => next value left
      | (.error error, left) => (.error error, left) := by
  change StateT.bind step (ExceptT.bindCont next) state = _
  unfold StateT.bind
  rcases step state with ⟨_ | _, left⟩ <;> rfl

/-- What comes after a step matters for the results that it has. -/
theorem bind_congr_at
    {step other : VisitM τ ω σ γ α}
    {next following : α -> VisitM τ ω σ γ β}
    {state : VisitState τ ω σ γ}
    (first : step state = other state)
    (later : forall {value left}, step state = (.ok value, left) -> next value left = following value left) :
    (step >>= next) state = (other >>= following) state := by
  rw [bind_apply, bind_apply, <- first]
  rcases outcome : step state with ⟨_ | value, left⟩
  · rfl
  · exact later outcome

theorem within_apply
    (value : FrameValue τ ω)
    (step : VisitM τ ω σ γ α)
    (state : VisitState τ ω σ γ) :
    within value step state =
      ((step (state.entered value)).1, state.returned (step (state.entered value)).2) := rfl

/-- Note that a node has been visited. -/
def observe (id : Stamp) : VisitM τ ω σ γ Unit :=
  modify fun state => { state with stop := state.stop.observe id }

end VisitM

/-- A property of steps, for every type of results. -/
abbrev StepProperty (τ ω σ γ : Type) := forall α : Type, VisitM τ ω σ γ α -> Prop

/-- A property that composed steps have when their parts do, with a stronger one for steps on markers. -/
structure StepProperty.IsCompositional (holds quiet : StepProperty τ ω σ γ) : Prop where
  ofQuiet : forall {α step}, quiet α step -> holds α step
  pureQuiet : forall {α} (value : α), quiet α (pure value)
  bindQuiet : forall {α β step next},
    quiet α step -> (forall value, quiet β (next value)) -> quiet β (step >>= next)
  bind : forall {α β step next},
    holds α step -> (forall value, holds β (next value)) -> holds β (step >>= next)
  within : forall {α step} (place), holds α step -> holds α (VisitM.within (.padding place) step)
  /-- A failure of the first step is raised only after the second one is done. -/
  defer : forall {α β δ step other} {next : Except Error α -> β -> VisitM τ ω σ γ δ},
    holds α step -> quiet β other ->
      (forall result value, holds δ (next (.ok result) value)) ->
      (forall error value, next (.error error) value = throw error) ->
      holds δ (VisitM.attempt step >>= fun outcome => other >>= next outcome)

namespace StepProperty.IsCompositional

variable {holds quiet : StepProperty τ ω σ γ}
variable (isCompositional : holds.IsCompositional quiet)

include isCompositional

theorem pure (value : α) : holds α (Pure.pure value) :=
  isCompositional.ofQuiet (isCompositional.pureQuiet value)

theorem mapMQuiet
    {step : α -> VisitM τ ω σ γ β}
    (each : forall value, quiet β (step value))
    (list : List α) :
    quiet (List β) (list.mapM step) := by
  induction list with
  | nil => exact isCompositional.pureQuiet _
  | cons first rest ih =>
      rw [List.mapM_cons]
      exact isCompositional.bindQuiet (each first) fun _ =>
        isCompositional.bindQuiet ih fun _ => isCompositional.pureQuiet _

/-- The markers of a set are visited one by one. -/
theorem markersQuiet
    {visitMarker : Marker Space -> VisitM τ ω σ γ (Marker Space)}
    (each : forall marker, quiet _ (visitMarker marker))
    (markers : Markers Space) :
    quiet _ (visitMarkersWith visitMarker markers) := by
  unfold visitMarkersWith
  split
  · exact isCompositional.pureQuiet _
  · exact isCompositional.bindQuiet (isCompositional.mapMQuiet each _) fun _ =>
      isCompositional.pureQuiet _

theorem markers
    {visitMarker : Marker Space -> VisitM τ ω σ γ (Marker Space)}
    (each : forall marker, quiet _ (visitMarker marker))
    (markers : Markers Space) :
    holds _ (visitMarkersWith visitMarker markers) :=
  isCompositional.ofQuiet (isCompositional.markersQuiet each markers)

end StepProperty.IsCompositional

/-! ## Hooks -/

/-- The hooks have the property, and so does the dispatch when the visits of the children do. -/
structure Traversal.Has
    (traversal : Traversal τ ω σ γ)
    (holds : StepProperty τ ω σ γ) : Prop where
  accepts : forall tree, holds _ (traversal.accepts tree)
  acceptsSource : forall tree, holds _ (traversal.acceptsSource tree)
  before : forall tree, holds _ (traversal.before tree)
  after : forall tree, holds _ (traversal.after tree)
  dispatch : forall visitChild, (forall tree, holds _ (visitChild tree)) ->
    forall tree, holds _ (traversal.dispatch visitChild tree)

namespace Traversal

variable [VisitNode τ]
variable {traversal : Traversal τ ω σ γ}
variable {holds quiet : StepProperty τ ω σ γ}
variable (isCompositional : holds.IsCompositional quiet) (has : traversal.Has holds)
variable {visitChild : τ -> VisitM τ ω σ γ (Option τ)}
variable (children : forall tree, holds _ (visitChild tree))

include isCompositional

theorem wants_has
    (accepts : forall tree, holds _ (traversal.accepts tree))
    (acceptsSource : forall tree, holds _ (traversal.acceptsSource tree))
    (tree : τ) :
    holds _ (traversal.wants tree) := by
  refine isCompositional.bind (accepts tree) fun isWanted => ?_
  split
  · split
    · exact acceptsSource tree
    · exact isCompositional.pure _
  · exact isCompositional.pure _

include has children

omit [VisitNode τ] in
theorem visitInside_has (tree : Option τ) : holds _ (traversal.visitInside visitChild tree) := by
  cases tree with
  | none => exact isCompositional.pure _
  | some tree =>
      refine isCompositional.bind (has.dispatch visitChild children tree) fun result => ?_
      cases result with
      | none => exact isCompositional.pure _
      | some result => exact has.after result

/-- The hooks and the dispatch of a node that may be wanted. -/
theorem visitIfAccepted_has
    (looks : holds _ get)
    (observes : forall id, holds _ (VisitM.observe id))
    (tree : τ) :
    holds _ (traversal.visitIfAccepted visitChild tree) := by
  have closing (last : Option τ) : holds _ (do VisitM.observe (Identified.id tree); return last) :=
    isCompositional.bind (observes _) fun _ => isCompositional.pure _
  refine isCompositional.bind
    (wants_has isCompositional has.accepts has.acceptsSource tree) fun isWanted => ?_
  split
  · refine isCompositional.bind (has.before tree) fun first => isCompositional.bind looks fun state => ?_
    dsimp only
    split
    · exact isCompositional.bind (isCompositional.pure _) closing
    · exact isCompositional.bind (visitInside_has isCompositional has children first) closing
  · exact isCompositional.pure _

end Traversal

/-! ## The visit of a node -/

/-- A wanted node whose hooks do not fail and do not leave out its children. -/
theorem Traversal.visitAccepted_of_ok
    [VisitNode τ]
    {traversal : Traversal τ ω σ γ}
    {visitChild : τ -> VisitM τ ω σ γ (Option τ)}
    {tree : τ}
    {first last : Option τ}
    {state middle left : VisitState τ ω σ γ}
    (before : traversal.before tree state = (.ok first, middle))
    (goesIn : middle.cursor.message? Message.truth? skipChildrenKey ≠ some true)
    (inside : traversal.visitInside visitChild first middle = (.ok last, left)) :
    traversal.visitAccepted visitChild tree state =
      (.ok last, { left with stop := left.stop.observe (Identified.id tree) }) := by
  rw [visitAccepted, VisitM.bind_apply, before]
  change (get >>= _ : VisitM τ ω σ γ (Option τ)) middle = _
  rw [VisitM.bind_apply]
  change (if _ then _ else _ : VisitM τ ω σ γ (Option τ)) middle = _
  rw [if_neg goesIn, VisitM.bind_apply, inside]
  rfl

section Enter

variable [VisitNode τ] [Named ω]
variable {traversal : Traversal τ ω σ γ}
variable {drain : List (QueuedVisitor σ) -> τ -> VisitM τ ω σ γ (Option τ)}
variable {visitChild : τ -> VisitM τ ω σ γ (Option τ)}
variable {tree : τ}
variable {state left : VisitState τ ω σ γ}
variable {outcome : Except Error (Option τ)}

theorem Traversal.enter_of_stopped (stopped : state.stop.isStopped = true) :
    traversal.enter drain visitChild tree state = (.ok (some tree), state) :=
  if_pos stopped

theorem Traversal.enter_of_nested
    (goesOn : state.stop.isStopped = false)
    (nested : state.depth ≠ 0)
    (inner : locating (traversal.visitIfAccepted visitChild tree) (state.inside tree) = (outcome, left)) :
    traversal.enter drain visitChild tree state =
      (outcome, { state.returned left with depth := left.depth - 1 }) := by
  rw [VisitState.inside] at inner
  rw [enter, if_neg (by simp [goesOn]), VisitM.within_apply, inner]
  exact if_neg nested

theorem Traversal.enter_of_outermost
    (goesOn : state.stop.isStopped = false)
    (outermost : state.depth = 0) :
    locating (traversal.visitIfAccepted visitChild tree) (state.inside tree) = (outcome, left) ->
      traversal.enter drain visitChild tree state =
        match outcome with
        | .ok (some result) =>
            drain left.queue result { state.returned left with depth := 0, queue := [] }
        | outcome => (outcome, { state.returned left with depth := 0, queue := [] }) := by
  intro inner
  rw [VisitState.inside] at inner
  rw [enter, if_neg (by simp [goesOn]), VisitM.within_apply, inner]
  exact if_pos outermost

end Enter

/-! ## Walks through syntax trees -/

namespace Java

/-- The hooks have the property, and the ones that visit children do when those visits do. -/
structure Visitor.Has
    (visitor : Visitor σ γ)
    (holds quiet : StepProperty Tree PaddingFrame σ γ) : Prop where
  space : forall place space, holds _ (visitor.space place space)
  marker : forall marker, quiet _ (visitor.marker marker)
  accepts : forall tree, holds _ (visitor.accepts tree)
  acceptsSource : forall tree, holds _ (visitor.acceptsSource tree)
  before : forall tree, holds _ (visitor.before tree)
  after : forall tree, holds _ (visitor.after tree)
  visitContainer : forall visit, (forall tree, holds _ (visit tree)) ->
    forall place list, holds _ (visitor.visitContainer visit place list)
  dispatch : forall descend, (forall tree, holds _ (descend tree)) ->
    forall tree, holds _ (visitor.dispatch descend tree)

section Walk

variable {holds quiet : StepProperty Tree PaddingFrame σ γ}
variable (isCompositional : holds.IsCompositional quiet)
variable {visit : Tree -> TreeVisit σ γ (Option Tree)}
variable (children : forall tree, holds _ (visit tree))

section Gaps

variable {visitor : GapVisitor σ γ}
variable (spaces : forall place space, holds _ (visitor.space place space))
variable (markers : forall marker, quiet _ (visitor.marker marker))

include isCompositional spaces markers

section Padding

include children

theorem GapVisitor.rightPadded_has
    (place : ElementPlace)
    (padded : RightPadded Tree) :
    holds _ (visitor.rightPadded visit place padded) := by
  refine isCompositional.bind (isCompositional.within _ (children padded.element)) fun element => ?_
  cases element with
  | none => exact isCompositional.pure _
  | some element =>
      exact isCompositional.bind (spaces _ _) fun _ =>
        isCompositional.bind (isCompositional.markers markers _) fun _ => isCompositional.pure _

theorem GapVisitor.rightPaddedList_has
    (place : ElementPlace)
    (list : List (RightPadded Tree)) :
    holds _ (visitor.rightPaddedList visit place list) := by
  induction list with
  | nil => exact isCompositional.pure _
  | cons first rest ih =>
      exact isCompositional.bind
        (rightPadded_has isCompositional children spaces markers place first) fun _ =>
          isCompositional.bind ih fun _ => isCompositional.pure _

theorem GapVisitor.leftPadded_has
    (place : OperandPlace)
    (padded : LeftPadded Tree) :
    holds _ (visitor.leftPadded visit place padded) := by
  refine isCompositional.bind (isCompositional.within _ ?_) fun parts => ?_
  · exact isCompositional.bind (spaces _ _) fun _ =>
      isCompositional.bind (children padded.element) fun _ => isCompositional.pure _
  · obtain ⟨before, _ | element⟩ := parts
    · exact isCompositional.pure _
    · exact isCompositional.bind (isCompositional.markers markers _) fun _ => isCompositional.pure _

theorem GapVisitor.container_has
    (place : ContainerPlace)
    (list : Container Tree) :
    holds _ (visitor.container visit place list) := by
  refine isCompositional.bind (isCompositional.within _ ?_) fun parts => ?_
  · exact isCompositional.bind (spaces _ _) fun _ =>
      isCompositional.bind (rightPaddedList_has isCompositional children spaces markers _ _) fun _ =>
        isCompositional.pure _
  · exact isCompositional.bind (isCompositional.markers markers _) fun _ => isCompositional.pure _

end Padding

theorem GapVisitor.operator_has (padded : LeftPadded Operator) :
    holds _ (visitor.operator padded) :=
  isCompositional.defer (isCompositional.within _ (spaces _ _))
    (isCompositional.markersQuiet markers _) (fun _ _ => isCompositional.pure _) fun _ _ => rfl

end Gaps

namespace Visitor

variable {visitor : Visitor σ γ} (has : visitor.Has holds quiet)

include isCompositional children

theorem visitOption_has (tree : Option Tree) : holds _ (visitOption visit tree) := by
  cases tree with
  | none => exact isCompositional.pure _
  | some tree => exact children tree

include has

theorem visitReceiver_has (padded : Option (RightPadded Tree)) :
    holds _ (visitor.visitReceiver visit padded) := by
  cases padded with
  | none => exact isCompositional.pure _
  | some padded =>
      exact GapVisitor.rightPadded_has isCompositional children has.space has.marker _ padded

theorem visitForm_has (form : Form Tree) : holds _ (visitor.visitForm visit form) := by
  have elements := GapVisitor.rightPaddedList_has isCompositional children has.space has.marker
  have element := GapVisitor.rightPadded_has isCompositional children has.space has.marker
  have operand := GapVisitor.leftPadded_has isCompositional children has.space has.marker
  have option := visitOption_has isCompositional children
  have bind {α β : Type} {step : TreeVisit σ γ α} {next : α -> TreeVisit σ γ β} :
      holds α step -> (forall value, holds β (next value)) -> holds β (step >>= next) :=
    isCompositional.bind
  have done {α : Type} (value : α) := isCompositional.pure value
  cases form with
  | compilationUnit dialect source statements eof =>
      exact bind (elements _ _) fun _ => bind (has.space _ _) fun _ => done _
  | block statements closing =>
      exact bind (elements _ _) fun _ => bind (has.space _ _) fun _ => done _
  | conditional condition consequence alternative =>
      refine bind (children condition) fun condition => ?_
      cases condition with
      | none => exact done _
      | some condition =>
          refine bind (element _ _) fun consequence => ?_
          cases consequence with
          | none => exact done _
          | some consequence => exact bind (option _) fun _ => done _
  | otherwise body =>
      refine bind (element _ _) fun body => ?_
      cases body <;> exact done _
  | returns value => exact bind (option _) fun _ => done _
  | assignment target value typeTag =>
      refine bind (children target) fun target => ?_
      cases target with
      | none => exact done _
      | some target =>
          refine bind (operand _ _) fun value => ?_
          cases value <;> exact done _
  | binary left operator right typeTag =>
      refine bind (children left) fun left => ?_
      cases left with
      | none => exact done _
      | some left =>
          refine bind (GapVisitor.operator_has isCompositional has.space has.marker _) fun _ => ?_
          refine bind (children right) fun right => ?_
          cases right <;> exact done _
  | identifier name typeTag => exact done _
  | literal source typeTag => exact done _
  | fieldAccess target name typeTag =>
      refine bind (children target) fun target => ?_
      cases target with
      | none => exact done _
      | some target =>
          refine bind (operand _ _) fun name => ?_
          cases name <;> exact done _
  | call receiver name arguments typeTag =>
      refine bind (visitReceiver_has isCompositional children has _) fun _ => ?_
      refine bind (children name) fun name => ?_
      cases name with
      | none => exact done _
      | some name => exact bind (has.visitContainer visit children _ _) fun _ => done _
  | declaration returnType name parameters body =>
      refine bind (option _) fun _ => bind (children name) fun name => ?_
      cases name with
      | none => exact done _
      | some name =>
          exact bind (has.visitContainer visit children _ _) fun _ => bind (option _) fun _ => done _
  | parentheses inner =>
      refine bind (element _ _) fun inner => ?_
      cases inner <;> exact done _
  | collection kind elements typeTag =>
      exact bind (has.visitContainer visit children _ _) fun _ => done _
  | empty => exact done _
  | unknown text => exact done _

theorem descend_has (tree : Tree) : holds _ (visitor.descend visit tree) := by
  refine isCompositional.bind (has.space _ _) fun _ =>
    isCompositional.bind (isCompositional.markers has.marker _) fun _ =>
      isCompositional.bind (visitForm_has isCompositional children has _) fun form => ?_
  cases form <;> exact isCompositional.pure _

omit children in
theorem traversal_has : visitor.traversal.Has holds where
  accepts := has.accepts
  acceptsSource := has.acceptsSource
  before := has.before
  after := has.after
  dispatch := fun _ children => has.dispatch _ fun tree => descend_has isCompositional children has tree

end Visitor
end Walk
end Java

/-! ## Walks through data trees -/

namespace Json

/-- The hooks have the property, and the dispatch does when the walk through a node does. -/
structure Visitor.Has
    (visitor : Visitor σ γ)
    (holds quiet : StepProperty Tree PaddingFrame σ γ) : Prop where
  space : forall space, holds _ (visitor.space space)
  marker : forall marker, quiet _ (visitor.marker marker)
  accepts : forall tree, holds _ (visitor.accepts tree)
  acceptsSource : forall tree, holds _ (visitor.acceptsSource tree)
  before : forall tree, holds _ (visitor.before tree)
  after : forall tree, holds _ (visitor.after tree)
  dispatch : forall descend, (forall tree, holds _ (descend tree)) ->
    forall tree, holds _ (visitor.dispatch descend tree)

namespace Visitor

variable {holds quiet : StepProperty Tree PaddingFrame σ γ}
variable (isCompositional : holds.IsCompositional quiet)
variable {visitor : Visitor σ γ} (has : visitor.Has holds quiet)
variable {visit : Tree -> TreeVisit σ γ (Option Tree)}
variable (children : forall tree, holds _ (visit tree))

include isCompositional has children

theorem rightPadded_has (padded : RightPadded Tree) :
    holds _ (visitor.rightPadded visit padded) := by
  refine isCompositional.bind (isCompositional.within _ (children padded.element)) fun element => ?_
  cases element with
  | none => exact isCompositional.pure _
  | some element =>
      exact isCompositional.bind (has.space _) fun _ =>
        isCompositional.bind (isCompositional.markers has.marker _) fun _ => isCompositional.pure _

theorem rightPaddedList_has (list : List (RightPadded Tree)) :
    holds _ (visitor.rightPaddedList visit list) := by
  induction list with
  | nil => exact isCompositional.pure _
  | cons first rest ih =>
      exact isCompositional.bind (rightPadded_has isCompositional has children first) fun _ =>
        isCompositional.bind ih fun _ => isCompositional.pure _

theorem visitForm_has (form : Form Tree) : holds _ (visitor.visitForm visit form) := by
  have elements := rightPaddedList_has isCompositional has children
  have bind {α β : Type} {step : TreeVisit σ γ α} {next : α -> TreeVisit σ γ β} :
      holds α step -> (forall value, holds β (next value)) -> holds β (step >>= next) :=
    isCompositional.bind
  have done {α : Type} (value : α) := isCompositional.pure value
  cases form with
  | document source value eof =>
      refine bind (children value) fun value => ?_
      cases value with
      | none => exact done _
      | some value => exact bind (has.space _) fun _ => done _
  | object members => exact bind (elements _) fun _ => done _
  | member key value =>
      refine bind (rightPadded_has isCompositional has children _) fun key => ?_
      cases key with
      | none => exact done _
      | some key =>
          refine bind (children value) fun value => ?_
          cases value <;> exact done _
  | array values => exact bind (elements _) fun _ => done _
  | literal source value => exact done _
  | identifier name => exact done _
  | empty => exact done _

theorem descend_has (tree : Tree) : holds _ (visitor.descend visit tree) := by
  refine isCompositional.bind (has.space _) fun _ =>
    isCompositional.bind (isCompositional.markers has.marker _) fun _ =>
      isCompositional.bind (visitForm_has isCompositional has children _) fun form => ?_
  cases form <;> exact isCompositional.pure _

omit children in
theorem traversal_has : visitor.traversal.Has holds where
  accepts := has.accepts
  acceptsSource := has.acceptsSource
  before := has.before
  after := has.after
  dispatch := fun _ children => has.dispatch _ fun tree => descend_has isCompositional has children tree

end Visitor
end Json

end Steps

/-!
## Frames that come back

Going back to a stack of frames that was left gives the frames of the later stack at the same heights, with
the messages that were put on them.
-/

namespace Cursor

variable {ν : Type}

/-- The frames at the bottom of the stack, as many as are asked for. -/
def lowest
    (count : Nat)
    (cursor : Cursor ν) : List (Frame ν) :=
  cursor.frames.drop (cursor.frames.length - count)

theorem length_values (cursor : Cursor ν) : cursor.values.length = cursor.frames.length := by
  simp [values]

theorem lowest_push
    (cursor : Cursor ν)
    (value : ν)
    (count : Nat)
    (isLow : count ≤ cursor.frames.length) :
    (cursor.push value).lowest count = cursor.lowest count := by
  change List.drop (cursor.frames.length + 1 - count) (_ :: cursor.frames) = _
  rw [Nat.succ_sub isLow, List.drop_succ_cons, lowest]

theorem lowest_length (cursor : Cursor ν) : cursor.lowest cursor.frames.length = cursor.frames := by
  simp [lowest]

theorem frames_injective
    {first second : Cursor ν}
    (same : first.frames = second.frames) :
    first = second := by
  obtain ⟨top, below⟩ := first
  obtain ⟨top', below'⟩ := second
  simp_all [frames]

/-- Frames that stand for the same, with the messages of the one and the values of the other. -/
theorem carryMessages_eq
    {saved current : List (Frame ν)}
    (same : current.map Frame.value = saved.map Frame.value) :
    carryMessages saved current = current := by
  induction saved generalizing current with
  | nil =>
      rw [List.map_eq_nil_iff.mp same]
      rfl
  | cons first rest ih =>
      obtain _ | ⟨frame, more⟩ := current
      · cases same
      · obtain ⟨atTop, below⟩ := List.cons_eq_cons.mp same
        rw [carryMessages, ih below, <- atTop]

/-- Frames that were left with others on top are found again below those. -/
theorem frames_returnTo
    {saved current : Cursor ν}
    (above : List ν)
    (same : current.values = above ++ saved.values) :
    (saved.returnTo current).frames = current.frames.drop above.length := by
  have lengths := congrArg List.length same
  rw [length_values, List.length_append, length_values] at lengths
  have heights : current.depth - saved.depth = above.length := by
    simp only [frames, List.length_cons] at lengths
    simp only [depth]
    omega
  have carried : carryMessages saved.frames (current.frames.drop above.length) =
      current.frames.drop above.length := by
    refine carryMessages_eq ?_
    have below := congrArg (List.drop above.length) same
    rwa [List.drop_left, values, <- List.map_drop] at below
  unfold returnTo
  rw [heights, carried]
  split
  · next found => rw [found]; rfl
  · next found =>
      rw [List.drop_eq_nil_iff] at found
      simp only [frames, List.length_cons] at lengths found
      omega

/-- A message changes no frame. -/
theorem values_putMessageBelow
    (cursor : Cursor ν)
    (key : Text)
    (message : Message)
    (steps : Nat) :
    (cursor.putMessageBelow key message steps).values = cursor.values := by
  cases steps with
  | zero => rfl
  | succ steps =>
      have same (frames : List (Frame ν)) :
          (frames.modify steps fun frame => { frame with messages := frame.messages.put key message }).map
            (fun frame => frame.value) = frames.map fun frame => frame.value := by
        refine List.ext_getElem? fun index => ?_
        rw [List.getElem?_map, List.getElem?_map, List.getElem?_modify]
        split <;> cases frames[index]? <;> rfl
      exact congrArg (cursor.top.value :: ·) (same cursor.below)

/-- Nothing happens to the frames when one is put on top and taken off again. -/
@[simp] theorem returnTo_push
    (cursor : Cursor ν)
    (value : ν) :
    cursor.returnTo (cursor.push value) = cursor :=
  frames_injective (frames_returnTo [value] rfl)

end Cursor

end Lossless
