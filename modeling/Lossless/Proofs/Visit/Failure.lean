import Lossless.Proofs.Visit.Keeps

/-!
# Where a failure comes from

A hook that fails raises an error at the frames at which it runs. When a visit fails, its error is one that
a hook raised, with the path of the frames of that hook from the innermost node on; an error that was raised
with a path keeps it. The error is recorded once, so no path is put around another.

What is known of an error when it is raised is a relation between the frames, the error and what all
visitors share at that moment. A visitor that keeps a log of its failures there has as its relation that
the log says so. Markers that are visited after a failure, those of an operator, must not take it back.
-/

namespace Lossless

variable {τ ω σ γ α β : Type}

theorem Error.locate_of_none
    {error : Error}
    (unknown : error.path = none)
    (path : CursorPath) :
    error.locate path = ⟨error.cause, some path⟩ := by
  rw [locate, unknown]

theorem Error.locate_of_ne_none
    {error : Error}
    (known : error.path ≠ none)
    (path : CursorPath) :
    error.locate path = error := by
  obtain ⟨recorded, present⟩ := Option.ne_none_iff_exists'.mp known
  rw [locate, present]

/-- What is known of an error that was raised at some frames. -/
abbrev RaiseRecord (τ ω γ : Type) := List (FrameValue τ ω) -> Error -> γ -> Prop

/-- The kinds of the frames from the innermost node on. -/
def nodePath
    [Named τ]
    [Named ω]
    (frames : List (FrameValue τ ω)) : CursorPath :=
  ⟨(frames.dropWhile fun frame => frame.tree?.isNone).map FrameValue.kindName⟩

@[simp] theorem nodePath_tree
    [Named τ]
    [Named ω]
    (tree : τ)
    (frames : List (FrameValue τ ω)) :
    nodePath (.tree tree :: frames) = ⟨(FrameValue.tree tree :: frames).map FrameValue.kindName⟩ := rfl

@[simp] theorem nodePath_padding
    [Named τ]
    [Named ω]
    (place : ω)
    (frames : List (FrameValue τ ω)) :
    nodePath (.padding place :: frames) = nodePath frames := rfl

/-- Both states are at the same frames. -/
def VisitState.SameFrames (state left : VisitState τ ω σ γ) : Prop :=
  left.cursor.values = state.cursor.values

theorem VisitState.sameFrames_isFrameRelation :
    StateRelation.IsFrameRelation (τ := τ) (ω := ω) (σ := σ) (γ := γ) SameFrames where
  refl := fun _ => rfl
  trans := fun first second => Eq.trans second first
  within := fun _ => Cursor.values_returnTo _ _

open VisitState

/-- The error was raised at these frames or further in, and has at most got the path of that place. -/
def ComesFrom
    [Named τ]
    [Named ω]
    (raised : RaiseRecord τ ω γ)
    (frames : List (FrameValue τ ω))
    (error : Error)
    (world : γ) : Prop :=
  exists inner original, raised inner original world ∧ frames <:+ inner ∧
    error.locate (nodePath frames) = original.locate (nodePath inner)

namespace VisitM

variable (raised : RaiseRecord τ ω γ)

/-- A hook stays at its frames, and what it fails with is raised there. -/
structure Raises (step : VisitM τ ω σ γ α) : Prop where
  frames : step.Keeps SameFrames
  failure : forall {state error left}, step state = (.error error, left) ->
    raised state.cursor.values error left.world

/-- A step that succeeds takes back nothing that is known of an error. -/
def Remembers (step : VisitM τ ω σ γ α) : Prop :=
  forall {state value left}, step state = (.ok value, left) ->
    forall {frames error}, raised frames error state.world -> raised frames error left.world

/-- A step stays at its frames, and what it fails with was raised there or further in. -/
structure Explains
    [Named τ]
    [Named ω]
    (step : VisitM τ ω σ γ α) : Prop where
  frames : step.Keeps SameFrames
  failure : forall {state error left}, step state = (.error error, left) ->
    ComesFrom raised state.cursor.values error left.world

variable {raised}

section Rules

variable [Named τ] [Named ω]

theorem Raises.explains
    {step : VisitM τ ω σ γ α}
    (raises : step.Raises raised) :
    step.Explains raised where
  frames := raises.frames
  failure := fun failed => ⟨_, _, raises.failure failed, List.suffix_rfl, rfl⟩

theorem Explains.pure (value : α) : Explains raised (pure value : VisitM τ ω σ γ α) where
  frames := .pure sameFrames_isFrameRelation value
  failure := nofun

theorem Explains.bind
    {step : VisitM τ ω σ γ α}
    {next : α -> VisitM τ ω σ γ β}
    (first : Explains raised step)
    (others : forall value, Explains raised (next value)) :
    Explains raised (step >>= next) where
  frames := .bind sameFrames_isFrameRelation first.frames fun value => (others value).frames
  failure := by
    intro state error left failed
    rw [bind_apply] at failed
    have sameFrames : SameFrames state (step state).2 := first.frames state
    rcases outcome : step state with ⟨stepError | value, middle⟩ <;> rw [outcome] at failed sameFrames
    · cases failed
      exact first.failure outcome
    · have later := (others value).failure failed
      rwa [show middle.cursor.values = state.cursor.values from sameFrames] at later

theorem Explains.within
    {step : VisitM τ ω σ γ α}
    (place : ω)
    (inner : Explains raised step) :
    Explains raised (within (.padding place) step) where
  frames := .within sameFrames_isFrameRelation inner.frames _
  failure := by
    intro state error left failed
    rw [within_apply] at failed
    rcases outcome : step (state.entered (.padding place)) with ⟨result, middle⟩
    rw [outcome] at failed
    cases failed
    obtain ⟨frames, original, known, isInner, located⟩ := inner.failure outcome
    refine ⟨frames, original, known, (List.suffix_cons _ _).trans isInner, ?_⟩
    rw [<- located]
    rfl

/-- A step that fails with what was raised, and when it succeeds takes nothing back. -/
abbrev QuietProperty (raised : RaiseRecord τ ω γ) : StepProperty τ ω σ γ :=
  fun _ step => step.Explains raised ∧ step.Remembers raised

/-- Failing with what was raised, as a property of steps. -/
abbrev ExplainsProperty (raised : RaiseRecord τ ω γ) : StepProperty τ ω σ γ :=
  fun _ step => step.Explains raised

omit [Named τ] [Named ω] in
theorem Remembers.bind
    {step : VisitM τ ω σ γ α}
    {next : α -> VisitM τ ω σ γ β}
    (first : Remembers raised step)
    (others : forall value, Remembers raised (next value)) :
    Remembers raised (step >>= next) := by
  intro state value left succeeded frames error known
  rw [bind_apply] at succeeded
  rcases outcome : step state with ⟨stepError | result, middle⟩ <;> rw [outcome] at succeeded
  · cases succeeded
  · exact others result succeeded (first outcome known)

/-- A failure that is raised only after another step is still the one that was raised. -/
theorem Explains.defer
    {δ : Type}
    {step : VisitM τ ω σ γ α}
    {other : VisitM τ ω σ γ β}
    {next : Except Error α -> β -> VisitM τ ω σ γ δ}
    (first : Explains raised step)
    (second : Explains raised other)
    (remembers : Remembers raised other)
    (succeeds : forall result value, Explains raised (next (.ok result) value))
    (fails : forall error value, next (.error error) value = throw error) :
    Explains raised (attempt step >>= fun outcome => other >>= next outcome) where
  frames := .bind sameFrames_isFrameRelation first.frames fun outcome =>
    .bind sameFrames_isFrameRelation second.frames fun value => by
      cases outcome with
      | ok result => exact (succeeds result value).frames
      | error error =>
          rw [fails]
          exact .throw sameFrames_isFrameRelation error
  failure := by
    intro state error left failed
    have sameFrames : SameFrames state (step state).2 := first.frames state
    rcases outcome : step state with ⟨raisedError | result, middle⟩ <;> rw [outcome] at sameFrames
    · have attempted : attempt step state = (.ok (.error raisedError), middle) := by
        simp only [attempt, outcome]
      rw [bind_apply, attempted] at failed
      dsimp only at failed
      rw [bind_apply] at failed
      rcases later : other middle with ⟨otherError | value, last⟩ <;> rw [later] at failed
      · cases failed
        rw [<- show middle.cursor.values = state.cursor.values from sameFrames]
        exact second.failure later
      · dsimp only at failed
        rw [fails] at failed
        cases failed
        obtain ⟨frames, original, known, isInner, located⟩ := first.failure outcome
        exact ⟨frames, original, remembers later known, isInner, located⟩
    · have attempted : attempt step state = (.ok (.ok result), middle) := by
        simp only [attempt, outcome]
      rw [bind_apply, attempted] at failed
      have rest := Explains.bind second fun value => succeeds result value
      rw [<- show middle.cursor.values = state.cursor.values from sameFrames]
      exact rest.failure failed

theorem explainsProperty_isCompositional (raised : RaiseRecord τ ω γ) :
    (ExplainsProperty (σ := σ) raised).IsCompositional (QuietProperty raised) where
  ofQuiet := And.left
  pureQuiet := fun value => ⟨.pure value, fun succeeded _ _ known => by cases succeeded; exact known⟩
  bindQuiet := fun first others =>
    ⟨.bind first.1 fun value => (others value).1, Remembers.bind first.2 fun value => (others value).2⟩
  bind := .bind
  within := .within
  defer := fun first second => .defer first second.1 second.2

end Rules
end VisitM

open VisitM

/-! ## Visits -/

namespace Traversal

variable [VisitNode τ] [Named ω]
variable {traversal : Traversal τ ω σ γ}
variable {raised : RaiseRecord τ ω γ}

/-- What a visit fails with was raised inside a node above its frames, and has the path of the innermost one. -/
def IsLocated
    (raised : RaiseRecord τ ω γ)
    (frames : List (FrameValue τ ω))
    (error : Error)
    (world : γ) : Prop :=
  exists node inner original, raised inner original world ∧ FrameValue.tree node :: frames <:+ inner ∧
    error = original.locate (nodePath inner)

/-- A visit goes back to its frames, and what it fails with has the path of where it was raised. -/
structure Locates
    (raised : RaiseRecord τ ω γ)
    (step : VisitM τ ω σ γ α) : Prop where
  frames : step.Keeps SameFrames
  failure : forall {state error left}, step state = (.error error, left) ->
    IsLocated raised state.cursor.values error left.world

theorem Locates.explains
    {step : VisitM τ ω σ γ α}
    (locates : Locates raised step) :
    step.Explains raised where
  frames := locates.frames
  failure := fun failed => by
    obtain ⟨node, inner, original, known, isInner, rfl⟩ := locates.failure failed
    exact ⟨inner, original, known, (List.suffix_cons _ _).trans isInner, Error.locate_locate _ _ _⟩

/-- At the frame of a node, an error that has no path yet gets the one of the node. -/
theorem locating_isLocated
    {step : VisitM τ ω σ γ α}
    (explains : step.Explains raised)
    {state left : VisitState τ ω σ γ}
    {tree : τ}
    {error : Error}
    (failed : locating step (state.inside tree) = (.error error, left)) :
    IsLocated raised state.cursor.values error left.world := by
  have sameFrames : SameFrames (state.inside tree) (step (state.inside tree)).2 := explains.frames _
  unfold locating at failed
  rcases outcome : step (state.inside tree) with ⟨stepError | value, middle⟩ <;>
    rw [outcome] at failed sameFrames
  · cases failed
    obtain ⟨inner, original, known, isInner, located⟩ := explains.failure outcome
    refine ⟨tree, inner, original, known, isInner, ?_⟩
    rw [<- located, Cursor.path, show left.cursor.values = _ from sameFrames]
    rfl
  · cases failed

/-- A node is visited at its frames, and a failure below it is located. -/
theorem enter_locates
    (explains : traversal.Has (ExplainsProperty raised))
    {visitChild : τ -> VisitM τ ω σ γ (Option τ)}
    (children : forall tree, (visitChild tree).Explains raised)
    {drain : List (QueuedVisitor σ) -> τ -> VisitM τ ω σ γ (Option τ)}
    (drains : forall queue tree, Locates raised (drain queue tree))
    (tree : τ) :
    Locates raised (traversal.enter drain visitChild tree) := by
  have accepted : (traversal.visitIfAccepted visitChild tree).Explains raised :=
    visitIfAccepted_has (explainsProperty_isCompositional raised) explains children
      ⟨.get sameFrames_isFrameRelation, nofun⟩ (fun _ => ⟨fun _ => rfl, nofun⟩) tree
  suffices both : forall state, SameFrames state (traversal.enter drain visitChild tree state).2 ∧
      forall error left, traversal.enter drain visitChild tree state = (.error error, left) ->
        IsLocated raised state.cursor.values error left.world from
    ⟨fun state => (both state).1, fun failed => (both _).2 _ _ failed⟩
  intro state
  cases goesOn : state.stop.isStopped with
  | true =>
      rw [enter_of_stopped goesOn]
      exact ⟨rfl, nofun⟩
  | false =>
      rcases inner : locating (traversal.visitIfAccepted visitChild tree) (state.inside tree)
        with ⟨outcome, middle⟩
      have restored : SameFrames state (state.returned middle) := Cursor.values_returnTo _ _
      by_cases outermost : state.depth = 0
      · rw [enter_of_outermost goesOn outermost inner]
        rcases outcome with error | (_ | result)
        · refine ⟨restored, fun _ _ failed => ?_⟩
          have located := locating_isLocated accepted inner
          cases failed
          exact located
        · refine ⟨restored, fun _ _ failed => ?_⟩
          cases failed
        · have drained := drains middle.queue result
          refine ⟨(drained.frames _).trans restored, fun _ _ failed => ?_⟩
          have located := drained.failure failed
          rwa [show (state.returned middle).cursor.values = _ from restored] at located
      · rw [enter_of_nested goesOn outermost inner]
        refine ⟨restored, fun _ _ failed => ?_⟩
        obtain rfl : outcome = .error _ := congrArg Prod.fst failed
        have located := locating_isLocated accepted inner
        cases failed
        exact located

theorem visitWithin_locates
    (explains : traversal.Has (ExplainsProperty raised))
    {drain : List (QueuedVisitor σ) -> τ -> VisitM τ ω σ γ (Option τ)}
    (drains : forall queue tree, Locates raised (drain queue tree))
    (depth : Nat)
    (tree : τ) :
    Locates raised (traversal.visitWithin drain depth tree) := by
  induction depth generalizing tree with
  | zero => exact ⟨fun _ => rfl, nofun⟩
  | succ depth ih => exact enter_locates explains (fun tree => (ih tree).explains) drains tree

theorem drainWith_locates
    {visit : τ -> VisitM τ ω σ γ (Option τ)}
    (visits : forall tree, Locates raised (visit tree))
    (queue : List (QueuedVisitor σ))
    (tree : τ) :
    Locates raised (drainWith visit queue tree) := by
  induction queue generalizing tree with
  | nil => exact ⟨fun _ => rfl, nofun⟩
  | cons visitor rest ih =>
      suffices both : forall state, SameFrames state (drainWith visit (visitor :: rest) tree state).2 ∧
          forall error left, drainWith visit (visitor :: rest) tree state = (.error error, left) ->
            IsLocated raised state.cursor.values error left.world from
        ⟨fun state => (both state).1, fun failed => (both _).2 _ _ failed⟩
      intro state
      unfold drainWith
      rcases visited : visit tree (visitor.start state.cursor state.world) with ⟨outcome, left⟩
      have restored : SameFrames state (state.drained left) := Cursor.values_returnTo _ _
      rcases outcome with error | (_ | result)
      · refine ⟨restored, fun _ _ failed => ?_⟩
        obtain ⟨node, inner, original, known, isInner, rfl⟩ := (visits tree).failure visited
        cases failed
        exact ⟨node, inner, original, known, isInner, Error.locate_locate _ _ _⟩
      · refine ⟨restored, fun _ _ failed => ?_⟩
        cases failed
      · refine ⟨((ih result).frames _).trans restored, fun _ _ failed => ?_⟩
        rw [<- show (state.drained left).cursor.values = _ from restored]
        exact (ih result).failure failed

theorem drainWithin_locates
    (explains : traversal.Has (ExplainsProperty raised))
    (generations : Nat)
    (queue : List (QueuedVisitor σ))
    (tree : τ) :
    Locates raised (traversal.drainWithin generations queue tree) := by
  induction generations generalizing queue tree with
  | zero => exact ⟨fun _ => rfl, nofun⟩
  | succ generations ih =>
      refine drainWith_locates (fun tree => ?_) queue tree
      exact ⟨fun state => (visitWithin_locates explains ih _ tree).frames state,
        fun failed => (visitWithin_locates explains ih _ tree).failure failed⟩

/-- What a visit fails with was raised by a hook, and has the path of the innermost node of that hook. -/
theorem visit_locates
    (explains : traversal.Has (ExplainsProperty raised))
    (tree : τ) :
    Locates raised (traversal.visit tree) :=
  ⟨fun state => (visitWithin_locates explains (drainWithin_locates explains _) _ tree).frames state,
    fun failed => (visitWithin_locates explains (drainWithin_locates explains _) _ tree).failure failed⟩

end Traversal

/-! ## Visitors -/

/-- Every hook stays at its frames, and what it fails with is raised there. -/
structure Java.Visitor.Raises
    (visitor : Java.Visitor σ γ)
    (raised : RaiseRecord Java.Tree Java.PaddingFrame γ) : Prop where
  space : forall place space, (visitor.space place space).Raises raised
  marker : forall marker, (visitor.marker marker).Raises raised
  markerRemembers : forall marker, (visitor.marker marker).Remembers raised
  accepts : forall tree, (visitor.accepts tree).Raises raised
  acceptsSource : forall tree, (visitor.acceptsSource tree).Raises raised
  before : forall tree, (visitor.before tree).Raises raised
  after : forall tree, (visitor.after tree).Raises raised
  visitContainer : forall visit, (forall tree, (visit tree).Explains raised) ->
    forall place list, (visitor.visitContainer visit place list).Explains raised
  dispatch : forall descend, (forall tree, (descend tree).Explains raised) ->
    forall tree, (visitor.dispatch descend tree).Explains raised

/-- Every hook stays at its frames, and what it fails with is raised there. -/
structure Json.Visitor.Raises
    (visitor : Json.Visitor σ γ)
    (raised : RaiseRecord Json.Tree Json.PaddingFrame γ) : Prop where
  space : forall space, (visitor.space space).Raises raised
  marker : forall marker, (visitor.marker marker).Raises raised
  markerRemembers : forall marker, (visitor.marker marker).Remembers raised
  accepts : forall tree, (visitor.accepts tree).Raises raised
  acceptsSource : forall tree, (visitor.acceptsSource tree).Raises raised
  before : forall tree, (visitor.before tree).Raises raised
  after : forall tree, (visitor.after tree).Raises raised
  dispatch : forall descend, (forall tree, (descend tree).Explains raised) ->
    forall tree, (visitor.dispatch descend tree).Explains raised

theorem Java.Visitor.Raises.run_locates
    {visitor : Java.Visitor σ γ}
    {raised : RaiseRecord Java.Tree Java.PaddingFrame γ}
    (raises : visitor.Raises raised)
    (tree : Java.Tree) :
    Traversal.Locates raised (visitor.run tree) :=
  Traversal.visit_locates
    (traversal_has (explainsProperty_isCompositional raised)
      { space := fun place space => (raises.space place space).explains
        marker := fun marker => ⟨(raises.marker marker).explains, raises.markerRemembers marker⟩
        accepts := fun tree => (raises.accepts tree).explains
        acceptsSource := fun tree => (raises.acceptsSource tree).explains
        before := fun tree => (raises.before tree).explains
        after := fun tree => (raises.after tree).explains
        visitContainer := raises.visitContainer
        dispatch := raises.dispatch })
    tree

theorem Json.Visitor.Raises.run_locates
    {visitor : Json.Visitor σ γ}
    {raised : RaiseRecord Json.Tree Json.PaddingFrame γ}
    (raises : visitor.Raises raised)
    (tree : Json.Tree) :
    Traversal.Locates raised (visitor.run tree) :=
  Traversal.visit_locates
    (traversal_has (explainsProperty_isCompositional raised)
      { space := fun space => (raises.space space).explains
        marker := fun marker => ⟨(raises.marker marker).explains, raises.markerRemembers marker⟩
        accepts := fun tree => (raises.accepts tree).explains
        acceptsSource := fun tree => (raises.acceptsSource tree).explains
        before := fun tree => (raises.before tree).explains
        after := fun tree => (raises.after tree).explains
        dispatch := raises.dispatch })
    tree

/--
A visit of a syntax tree or of a data tree that fails gives the error that a hook raised: with the path of
the frames of that hook from the innermost node out to the root if it had none, and else as it was.
-/
theorem failure_isLocated :
    (forall (visitor : Java.Visitor σ γ) raised, visitor.Raises raised ->
      forall tree state error left, visitor.run tree state = (.error error, left) ->
        exists node frames original, raised frames original left.world ∧
          FrameValue.tree node :: state.cursor.values <:+ frames ∧
          (original.path = none -> error = ⟨original.cause, some (nodePath frames)⟩) ∧
          (original.path ≠ none -> error = original)) ∧
    forall (visitor : Json.Visitor σ γ) raised, visitor.Raises raised ->
      forall tree state error left, visitor.run tree state = (.error error, left) ->
        exists node frames original, raised frames original left.world ∧
          FrameValue.tree node :: state.cursor.values <:+ frames ∧
          (original.path = none -> error = ⟨original.cause, some (nodePath frames)⟩) ∧
          (original.path ≠ none -> error = original) := by
  constructor
  · intro visitor raised raises tree state error left failed
    obtain ⟨node, frames, original, known, isInner, rfl⟩ := (raises.run_locates tree).failure failed
    exact ⟨node, frames, original, known, isInner, fun unknown => Error.locate_of_none unknown _,
      fun known => Error.locate_of_ne_none known _⟩
  · intro visitor raised raises tree state error left failed
    obtain ⟨node, frames, original, known, isInner, rfl⟩ := (raises.run_locates tree).failure failed
    exact ⟨node, frames, original, known, isInner, fun unknown => Error.locate_of_none unknown _,
      fun known => Error.locate_of_ne_none known _⟩

/-- A visitor that fails before every value that is assigned, and notes its failures with their frames. -/
def Java.complainer : Java.Visitor Unit (List (List Java.TreeFrame × Error)) where
  space := fun place space state =>
    if place = .assignmentOperatorPrefix then
      let error := Error.ofCause (.visitor [])
      (.error error, { state with world := (state.cursor.values, error) :: state.world })
    else (.ok space, state)

theorem Java.complainer_raises :
    Java.complainer.Raises fun frames error notes => notes.head? = some (frames, error) := by
  have isFrame := VisitState.sameFrames_isFrameRelation
    (τ := Java.Tree) (ω := Java.PaddingFrame) (σ := Unit) (γ := List (List Java.TreeFrame × Error))
  have plain {α : Type} (value : α) {raised} :
      VisitM.Raises raised (pure value : Java.TreeVisit Unit (List (List Java.TreeFrame × Error)) α) :=
    ⟨.pure isFrame value, nofun⟩
  have spaces place space : (Java.complainer.space place space).Raises
      fun frames error notes => notes.head? = some (frames, error) := by
    constructor
    · intro state
      dsimp only [Java.complainer]
      split <;> rfl
    · intro state error left failed
      dsimp only [Java.complainer] at failed
      split at failed <;> cases failed
      rfl
  have markers (marker : Marker Space) : (Java.complainer.marker marker).Remembers
      fun frames error notes => notes.head? = some (frames, error) := by
    intro state value left succeeded frames error known
    cases succeeded
    exact known
  exact
    { space := spaces
      marker := fun _ => plain _
      markerRemembers := markers
      accepts := fun _ => plain _
      acceptsSource := fun _ => plain _
      before := fun _ => plain _
      after := fun _ => plain _
      visitContainer := fun _ children _ list =>
        Java.GapVisitor.container_has (explainsProperty_isCompositional _) children
          (fun place space => (spaces place space).explains)
          (fun marker => ⟨(plain marker).explains, markers marker⟩) _ list
      dispatch := fun _ children => children }

/-- The failure in the padding of an assignment has the path from the assignment on. -/
theorem Java.complainer_isLocated :
    let value : LeftPadded Java.Tree := ⟨.empty, .identifier ['y'], .empty⟩
    let assignment := Java.Tree.build (.assignment (.identifier ['x']) value none)
    let tree := Java.Tree.build (.block [.build assignment] .empty)
    let run := Java.complainer.run tree (.start .root .never () [])
    let around : List Java.TreeFrame :=
      [.tree assignment, .padding (.element .blockStatement), .tree tree, .root]
    let path : CursorPath := ⟨around.map FrameValue.kindName⟩
    run.1 = .error ⟨.visitor [], some path⟩ ∧
    exists node frames original, run.2.world.head? = some (frames, original) ∧
      [FrameValue.tree node, .root] <:+ frames ∧
      (original.path = none -> run.1 = .error ⟨original.cause, some (nodePath frames)⟩) ∧
      (original.path ≠ none -> run.1 = .error original) := by
  intro value assignment tree run around path
  have failed : run.1 = .error ⟨.visitor [], some path⟩ := rfl
  have outcome : run = (.error _, run.2) := Prod.ext failed rfl
  obtain ⟨node, frames, original, known, isInner, located, kept⟩ :=
    failure_isLocated.1 Java.complainer _ Java.complainer_raises tree _ _ _ outcome
  rw [failed]
  exact ⟨rfl, node, frames, original, known, isInner, fun unknown => congrArg _ (located unknown),
    fun path => congrArg _ (kept path)⟩

end Lossless
