import Lossless.Proofs.Visit.Steps

/-!
# What a visit keeps

A step keeps a relation when the states before and after it are related, whatever its outcome. The relations
of interest compose and do not look at the frame in which an inner step runs. When the hooks of a visitor
keep such a relation, then so does every walk through a node, and every visit.

A visit is related more closely than its parts: what a hook does to the frame of a node is gone when the
visit of the node is over.
-/

namespace Lossless

variable {τ ω σ γ α β : Type}

/-- A relation between the states before and after a step. -/
abbrev StateRelation (τ ω σ γ : Type) :=
  VisitState τ ω σ γ -> VisitState τ ω σ γ -> Prop

/-- A relation that composes and does not look at the frame of an inner step. -/
structure StateRelation.IsFrameRelation (relation : StateRelation τ ω σ γ) : Prop where
  refl : forall state, relation state state
  trans : forall {first second third},
    relation first second -> relation second third -> relation first third
  within : forall {state left value},
    relation (state.entered value) left -> relation state (state.returned left)

namespace VisitM

/-- The step leaves a state that is related to the one before it. -/
def Keeps
    (relation : StateRelation τ ω σ γ)
    (step : VisitM τ ω σ γ α) : Prop :=
  forall state, relation state (step state).2

/-- Keeping a relation, as a property of steps. -/
abbrev KeepsProperty (relation : StateRelation τ ω σ γ) : StepProperty τ ω σ γ :=
  fun _ step => step.Keeps relation

section Rules

variable {relation : StateRelation τ ω σ γ}
variable (isFrame : relation.IsFrameRelation)

include isFrame

theorem Keeps.pure (value : α) : Keeps relation (pure value) :=
  isFrame.refl

theorem Keeps.throw (error : Error) : Keeps relation (throw error : VisitM τ ω σ γ α) :=
  isFrame.refl

theorem Keeps.ofExcept (outcome : Except Error α) :
    Keeps relation (ofExcept outcome : VisitM τ ω σ γ α) := by
  cases outcome with
  | ok value => exact Keeps.pure isFrame value
  | error error => exact Keeps.throw isFrame error

theorem Keeps.get : Keeps relation (get : VisitM τ ω σ γ _) :=
  isFrame.refl

theorem Keeps.bind
    {step : VisitM τ ω σ γ α}
    {next : α -> VisitM τ ω σ γ β}
    (first : Keeps relation step)
    (others : forall value, Keeps relation (next value)) :
    Keeps relation (step >>= next) := by
  intro state
  rw [bind_apply]
  have atFirst := first state
  rcases outcome : step state with ⟨_ | value, left⟩ <;> rw [outcome] at atFirst
  · exact atFirst
  · exact isFrame.trans atFirst (others value left)

theorem Keeps.within
    {step : VisitM τ ω σ γ α}
    (inner : Keeps relation step)
    (value : FrameValue τ ω) :
    Keeps relation (within value step) :=
  fun state => isFrame.within (inner (state.entered value))

theorem keepsProperty_isCompositional :
    (KeepsProperty relation).IsCompositional (KeepsProperty relation) where
  ofQuiet := id
  pureQuiet := Keeps.pure isFrame
  bindQuiet := Keeps.bind isFrame
  bind := Keeps.bind isFrame
  within := fun _ inner => Keeps.within isFrame inner _
  defer := fun first other next fails =>
    Keeps.bind isFrame first fun outcome => Keeps.bind isFrame other fun value => by
      cases outcome with
      | ok result => exact next result value
      | error error =>
          rw [fails]
          exact Keeps.throw isFrame error

end Rules

end VisitM

open VisitM

/-- The hooks keep the relation, and so does the dispatch when the visits of the children do. -/
abbrev Traversal.Keeps
    (traversal : Traversal τ ω σ γ)
    (relation : StateRelation τ ω σ γ) : Prop :=
  traversal.Has (KeepsProperty relation)

/--
What the parts of a visit keep, and what a whole visit does. The states before and after a node are those of
its hooks without the frame of the node.
-/
structure StateRelation.IsVisitRelation (inner outer : StateRelation τ ω σ γ) : Prop
    extends inner.IsFrameRelation where
  observe : forall {state left} (id), inner state left ->
    inner state { left with stop := left.stop.observe id }
  weaken : forall {state left}, outer state left -> inner state left
  stay : forall state, outer state state
  leave : forall {state left tree}, inner (state.inside tree) left -> state.depth ≠ 0 ->
    outer state { state.returned left with depth := left.depth - 1 }
  finish : forall {state left tree}, inner (state.inside tree) left -> state.depth = 0 ->
    outer state { state.returned left with depth := 0, queue := [] }
  drain : forall {state middle left} {visitor : QueuedVisitor σ}, outer state middle ->
    outer (visitor.start middle.cursor middle.world) left -> outer state (middle.drained left)

namespace Traversal

variable [VisitNode τ] [Named ω]
variable {traversal : Traversal τ ω σ γ}
variable {inner outer : StateRelation τ ω σ γ}
variable (isVisit : inner.IsVisitRelation outer) (keeps : traversal.Keeps inner)

theorem locating_keeps
    {relation : StateRelation τ ω σ γ}
    {step : VisitM τ ω σ γ α}
    (kept : step.Keeps relation) :
    (locating step).Keeps relation := by
  intro state
  have atStep := kept state
  unfold locating
  rcases outcome : step state with ⟨_ | _, left⟩ <;> rw [outcome] at atStep <;> exact atStep

include isVisit keeps

omit [Named ω] in
theorem visitIfAccepted_keeps
    {visitChild : τ -> VisitM τ ω σ γ (Option τ)}
    (children : forall tree, (visitChild tree).Keeps inner)
    (tree : τ) :
    (traversal.visitIfAccepted visitChild tree).Keeps inner :=
  have isFrame := isVisit.toIsFrameRelation
  visitIfAccepted_has (keepsProperty_isCompositional isFrame) keeps children (.get isFrame)
    (fun _ state => isVisit.observe _ (isFrame.refl state)) tree

/-- A node is related as a whole when its hooks and its children are. -/
theorem enter_keeps
    {visitChild : τ -> VisitM τ ω σ γ (Option τ)}
    (children : forall tree, (visitChild tree).Keeps inner)
    {drain : List (QueuedVisitor σ) -> τ -> VisitM τ ω σ γ (Option τ)}
    (drains : forall queue tree state middle, outer state middle ->
      outer state (drain queue tree middle).2)
    (tree : τ) :
    (traversal.enter drain visitChild tree).Keeps outer := by
  intro state
  unfold enter
  split
  · exact isVisit.stay state
  · have inside := locating_keeps (visitIfAccepted_keeps isVisit keeps children tree)
      (state.inside tree)
    simp only [within_apply]
    change inner _ (locating _ (state.inside tree)).2 at inside
    split
    · next outermost =>
        have finished := isVisit.finish inside outermost
        split
        · exact drains _ _ _ _ finished
        · exact finished
    · next nested => exact isVisit.leave inside nested

theorem visitWithin_keeps
    {drain : List (QueuedVisitor σ) -> τ -> VisitM τ ω σ γ (Option τ)}
    (drains : forall queue tree state middle, outer state middle ->
      outer state (drain queue tree middle).2)
    (depth : Nat)
    (tree : τ) :
    (traversal.visitWithin drain depth tree).Keeps outer := by
  induction depth generalizing tree with
  | zero => exact isVisit.stay
  | succ depth ih =>
      exact enter_keeps isVisit keeps (fun tree state => isVisit.weaken (ih tree state)) drains tree

omit keeps in
theorem drainWith_keeps
    {visit : τ -> VisitM τ ω σ γ (Option τ)}
    (visits : forall tree, (visit tree).Keeps outer)
    (queue : List (QueuedVisitor σ))
    (tree : τ)
    (state middle : VisitState τ ω σ γ)
    (related : outer state middle) :
    outer state (drainWith visit queue tree middle).2 := by
  induction queue generalizing tree middle with
  | nil => exact related
  | cons visitor rest ih =>
      unfold drainWith
      have visited := isVisit.drain related (visits tree (visitor.start middle.cursor middle.world))
      rcases outcome : visit tree (visitor.start middle.cursor middle.world) with ⟨result, left⟩
      rw [outcome] at visited
      rcases result with error | (_ | result)
      · exact visited
      · exact visited
      · exact ih result (middle.drained left) visited

theorem drainWithin_keeps
    (generations : Nat)
    (queue : List (QueuedVisitor σ))
    (tree : τ)
    (state middle : VisitState τ ω σ γ)
    (related : outer state middle) :
    outer state (traversal.drainWithin generations queue tree middle).2 := by
  induction generations generalizing queue tree state middle with
  | zero => exact related
  | succ generations ih =>
      refine drainWith_keeps isVisit (fun tree state => ?_) queue tree state middle related
      exact visitWithin_keeps isVisit keeps ih _ tree state

/-- A visit keeps what its hooks keep. -/
theorem visit_keeps (tree : τ) : (traversal.visit tree).Keeps outer :=
  fun state => visitWithin_keeps isVisit keeps (drainWithin_keeps isVisit keeps _) _ tree state

end Traversal

/-- The hooks keep the relation, and the ones that visit children do so when those visits do. -/
abbrev Java.Visitor.Keeps
    (visitor : Java.Visitor σ γ)
    (relation : StateRelation Java.Tree Java.PaddingFrame σ γ) : Prop :=
  visitor.Has (KeepsProperty relation) (KeepsProperty relation)

/-- The hooks keep the relation, and the dispatch does so when the walk through a node does. -/
abbrev Json.Visitor.Keeps
    (visitor : Json.Visitor σ γ)
    (relation : StateRelation Json.Tree Json.PaddingFrame σ γ) : Prop :=
  visitor.Has (KeepsProperty relation) (KeepsProperty relation)

/-- A visitor of syntax trees keeps what its hooks keep. -/
theorem Java.Visitor.traversal_keeps
    {visitor : Java.Visitor σ γ}
    {relation : StateRelation Java.Tree Java.PaddingFrame σ γ}
    (isFrame : relation.IsFrameRelation)
    (keeps : visitor.Keeps relation) :
    visitor.traversal.Keeps relation :=
  traversal_has (keepsProperty_isCompositional isFrame) keeps

/-- A visitor of data trees keeps what its hooks keep. -/
theorem Json.Visitor.traversal_keeps
    {visitor : Json.Visitor σ γ}
    {relation : StateRelation Json.Tree Json.PaddingFrame σ γ}
    (isFrame : relation.IsFrameRelation)
    (keeps : visitor.Keeps relation) :
    visitor.traversal.Keeps relation :=
  traversal_has (keepsProperty_isCompositional isFrame) keeps

end Lossless
