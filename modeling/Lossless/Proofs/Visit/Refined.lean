import Lossless.Proofs.Visit.Related
import Lossless.Word

/-!
# Visits in machine words

A step that counts in machine words refines the same step with numbers of any size: at every state it stops at a sum
that does not fit, or it has the result of the other one and leaves the same state. Composed steps refine one another
when their parts do, a visit refines another one when the hooks do, and so does a run from any state.

A sum that does not fit is not the end of every step: the markers of an operator are visited after its space has
failed. The failure is raised then.
-/

namespace Lossless

variable {τ ω σ γ α β : Type}

/-! ## Outcomes -/

/-- The outcome is the value, unless a sum does not fit. -/
def Gives
    (outcome : Except Error α)
    (value : α) : Prop :=
  overflows outcome = true ∨ outcome = .ok value

/-- What has a value does not overflow. -/
theorem fits_of_any
    {outcome : Except Error α}
    {test : α -> Bool}
    (some : outcome.toOption.any test = true) :
    overflows outcome = false := by
  cases outcome with
  | error error => cases some
  | ok value => rfl

/-- When the whole does not overflow, neither does its first step. -/
theorem fits_of_bind
    {outcome : Except Error α}
    {next : α -> Except Error β}
    (fits : overflows (outcome >>= next) = false) :
    overflows outcome = false := by
  cases outcome with
  | error error => exact fits
  | ok value => rfl

/-- Steps that agree as long as they do not overflow agree one after the other. -/
theorem bind_eq_of_fits
    {outcome exact : Except Error α}
    {next following : α -> Except Error β}
    (first : overflows outcome = false -> outcome = exact)
    (later : forall value, overflows (next value) = false -> next value = following value)
    (fits : overflows (outcome >>= next) = false) :
    outcome >>= next = exact >>= following := by
  cases outcome with
  | error error =>
      rw [<- first fits]
      rfl
  | ok value =>
      rw [<- first rfl]
      exact later value fits

namespace Gives

theorem ok (value : α) : Gives (.ok value) value := .inr rfl

/-- What does not overflow is the value. -/
theorem eq_ok
    {outcome : Except Error α}
    {value : α}
    (gives : Gives outcome value)
    (fits : overflows outcome = false) :
    outcome = .ok value :=
  gives.resolve_left (by simp [fits])

theorem bind
    {outcome : Except Error α}
    {value : α}
    {next : α -> Except Error β}
    {result : β}
    (first : Gives outcome value)
    (later : Gives (next value) result) :
    Gives (outcome >>= next) result := by
  cases outcome with
  | error error => exact .inl (first.resolve_right nofun)
  | ok found =>
      obtain rfl := Except.ok.inj (first.eq_ok rfl)
      exact later

theorem map
    {outcome : Except Error α}
    {value : α}
    (gives : Gives outcome value)
    (change : α -> β) :
    Gives (do return change (<- outcome)) (change value) :=
  gives.bind (ok _)

theorem mapM
    {step : α -> Except Error β}
    {exact : α -> β}
    (each : forall value, Gives (step value) (exact value))
    (list : List α) :
    Gives (list.mapM step) (list.map exact) := by
  induction list with
  | nil => exact ok _
  | cons first rest ih =>
      rw [List.mapM_cons]
      exact (each first).bind (ih.bind (ok _))

theorem foldlM
    {step : β -> α -> Except Error β}
    {exact : β -> α -> β}
    (each : forall total value, Gives (step total value) (exact total value))
    (total : β)
    (list : List α) :
    Gives (list.foldlM step total) (list.foldl exact total) := by
  induction list generalizing total with
  | nil => exact ok _
  | cons first rest ih =>
      rw [List.foldlM_cons]
      exact (each total first).bind (ih _)

theorem addWords (left right : Nat) : Gives (addWords left right) (left + right) := by
  rcases Nat.lt_or_ge (left + right) wordSize with fits | exceeds
  · exact .inr (addWords_of_fits fits)
  · exact .inl (overflows_addWords_iff.2 exceeds)

end Gives

/-! ## Steps -/

namespace VisitM

/-- At every state the step overflows, or it does what the other one does and has a result. -/
def Refines (step exact : VisitM τ ω σ γ α) : Prop :=
  forall state, overflows (step state).1 = true ∨
    exists value left, step state = (.ok value, left) ∧ exact state = (.ok value, left)

namespace Refines

theorem pure (value : α) : Refines (pure value : VisitM τ ω σ γ α) (pure value) :=
  fun state => .inr ⟨value, state, rfl, rfl⟩

theorem ofExcept
    {outcome : Except Error α}
    {value : α}
    (gives : Gives outcome value) :
    Refines (ofExcept outcome : VisitM τ ω σ γ α) (Pure.pure value) := by
  intro state
  cases outcome with
  | error error => exact .inl (gives.resolve_right nofun)
  | ok found =>
      obtain rfl := Except.ok.inj (gives.eq_ok rfl)
      exact .inr ⟨found, state, rfl, rfl⟩

theorem get : Refines (get : VisitM τ ω σ γ _) get :=
  fun state => .inr ⟨state, state, rfl, rfl⟩

theorem modify (change : VisitState τ ω σ γ -> VisitState τ ω σ γ) :
    Refines (modify change : VisitM τ ω σ γ Unit) (modify change) :=
  fun state => .inr ⟨(), change state, rfl, rfl⟩

theorem bind
    {step exact : VisitM τ ω σ γ α}
    {next following : α -> VisitM τ ω σ γ β}
    (first : Refines step exact)
    (later : forall value, Refines (next value) (following value)) :
    Refines (step >>= next) (exact >>= following) := by
  intro state
  rw [bind_apply, bind_apply]
  rcases first state with stops | ⟨value, left, runs, same⟩
  · rcases outcome : step state with ⟨error | value, left⟩ <;> rw [outcome] at stops
    · exact .inl stops
    · cases stops
  · rw [runs, same]
    exact later value left

/-- A step that only computes a value leaves the state to the next one. -/
theorem ofExcept_bind
    {outcome : Except Error α}
    {value : α}
    {next : α -> VisitM τ ω σ γ β}
    {following : VisitM τ ω σ γ β}
    (gives : Gives outcome value)
    (later : Refines (next value) following) :
    Refines (VisitM.ofExcept outcome >>= next) following := by
  cases outcome with
  | error error => exact fun state => .inl (gives.resolve_right nofun)
  | ok found =>
      obtain rfl := Except.ok.inj (gives.eq_ok rfl)
      exact later

theorem within
    {step exact : VisitM τ ω σ γ α}
    (inner : Refines step exact)
    (place : FrameValue τ ω) :
    Refines (within place step) (within place exact) := by
  intro state
  rw [within_apply, within_apply]
  rcases inner (state.entered place) with stops | ⟨value, left, runs, same⟩
  · exact .inl stops
  · exact .inr ⟨value, state.returned left, by rw [runs], by rw [same]⟩

/-- The first step overflows at once, and the second one may do so before the failure is raised. -/
theorem defer
    {step exact : VisitM τ ω σ γ α}
    {second otherSecond : VisitM τ ω σ γ β}
    {next following : Except Error α -> β -> VisitM τ ω σ γ δ}
    (first : Refines step exact)
    (between : Refines second otherSecond)
    (later : forall result value, Refines (next (.ok result) value) (following (.ok result) value))
    (fails : forall error value, next (.error error) value = throw error) :
    Refines (attempt step >>= fun outcome => second >>= next outcome)
      (attempt exact >>= fun outcome => otherSecond >>= following outcome) := by
  intro state
  rw [bind_apply, bind_apply, attempt, attempt]
  rcases first state with stops | ⟨value, left, runs, same⟩
  · rcases outcome : step state with ⟨error | value, left⟩ <;> rw [outcome] at stops
    · dsimp only
      rw [bind_apply]
      rcases between left with stopsNext | ⟨value, last, runs, -⟩
      · rcases outcome : second left with ⟨error | value, last⟩ <;> rw [outcome] at stopsNext
        · exact .inl stopsNext
        · cases stopsNext
      · rw [runs]
        dsimp only
        rw [fails]
        exact .inl stops
    · cases stops
  · rw [runs, same]
    exact between.bind (later value) left

/-- Where the steps run makes no difference. -/
theorem isCompositional :
    StepRelation.IsCompositional (τ := τ) (ω := ω) (σ := σ) (γ := γ) fun _ _ => Refines where
  pure := pure
  bind := bind
  within := fun place inner => inner.within (.padding place)
  defer := fun first between later fails _ => defer first between later fails

end Refines
end VisitM

open VisitM

/-! ## Visits -/

namespace Traversal

/-- The hooks refine one another, and so do the dispatches when the visits of the children do. -/
structure Refines (traversal exact : Traversal τ ω σ γ) : Prop where
  accepts : forall tree, (traversal.accepts tree).Refines (exact.accepts tree)
  acceptsSource : forall tree, (traversal.acceptsSource tree).Refines (exact.acceptsSource tree)
  before : forall tree, (traversal.before tree).Refines (exact.before tree)
  after : forall tree, (traversal.after tree).Refines (exact.after tree)
  dispatch : forall visit other, (forall tree, (visit tree).Refines (other tree)) ->
    forall tree, (traversal.dispatch visit tree).Refines (exact.dispatch other tree)

variable [VisitNode τ] [Named ω]
theorem locating_refines
    {step exact : VisitM τ ω σ γ α}
    (inner : step.Refines exact) :
    (locating step).Refines (locating exact) := by
  intro state
  unfold locating
  rcases inner state with stops | ⟨value, left, runs, same⟩
  · rcases outcome : step state with ⟨error | value, left⟩ <;> rw [outcome] at stops
    · exact .inl (by simpa [overflows] using stops)
    · cases stops
  · exact .inr ⟨value, left, by rw [runs], by rw [same]⟩

variable {traversal exact : Traversal τ ω σ γ}
variable (refines : traversal.Refines exact)
variable {visitChild otherChild : τ -> VisitM τ ω σ γ (Option τ)}
variable (children : forall tree, (visitChild tree).Refines (otherChild tree))

include refines

omit [Named ω] in
theorem wants_refines (tree : τ) : (traversal.wants tree).Refines (exact.wants tree) := by
  refine (refines.accepts tree).bind fun isWanted => ?_
  split
  · split
    · exact refines.acceptsSource tree
    · exact .pure _
  · exact .pure _

include children

omit [VisitNode τ] [Named ω] in
theorem visitInside_refines (tree : Option τ) :
    (traversal.visitInside visitChild tree).Refines (exact.visitInside otherChild tree) := by
  cases tree with
  | none => exact .pure _
  | some tree =>
      refine (refines.dispatch _ _ children tree).bind fun result => ?_
      cases result with
      | none => exact .pure _
      | some result => exact refines.after result

omit [Named ω] in
theorem visitIfAccepted_refines (tree : τ) :
    (traversal.visitIfAccepted visitChild tree).Refines (exact.visitIfAccepted otherChild tree) := by
  refine (wants_refines refines tree).bind fun isWanted => ?_
  split
  · refine (refines.before tree).bind fun first => Refines.get.bind fun state => ?_
    have closing (last : Option τ) :
        VisitM.Refines (do VisitM.observe (Identified.id tree); return last : VisitM τ ω σ γ _)
          (do VisitM.observe (Identified.id tree); return last) :=
      (Refines.modify _).bind fun _ => .pure _
    dsimp only
    split
    · exact (Refines.pure _).bind closing
    · exact (visitInside_refines refines children first).bind closing
  · exact .pure _

/-- The visit of a node, when no visitor is queued or all of them are left out. -/
theorem enter_refines
    {drain : List (QueuedVisitor σ) -> τ -> VisitM τ ω σ γ (Option τ)}
    (drains : forall queue tree, (drain queue tree).Refines (drain queue tree))
    (tree : τ) :
    (traversal.enter drain visitChild tree).Refines (exact.enter drain otherChild tree) := by
  intro state
  cases stopped : state.stop.isStopped with
  | true => exact .inr ⟨some tree, state, enter_of_stopped stopped, enter_of_stopped stopped⟩
  | false =>
      rcases locating_refines (visitIfAccepted_refines refines children tree) (state.inside tree) with
        stops | ⟨value, left, runs, same⟩
      · rcases outcome : locating (traversal.visitIfAccepted visitChild tree) (state.inside tree) with
          ⟨error | value, left⟩ <;> rw [outcome] at stops
        · refine .inl ?_
          by_cases atTop : state.depth = 0
          · rwa [enter_of_outermost stopped atTop outcome]
          · rwa [enter_of_nested stopped atTop outcome]
        · cases stops
      · by_cases atTop : state.depth = 0
        · rw [enter_of_outermost stopped atTop runs, enter_of_outermost stopped atTop same]
          cases value with
          | none => exact .inr ⟨none, _, rfl, rfl⟩
          | some result => exact drains left.queue result _
        · rw [enter_of_nested stopped atTop runs, enter_of_nested stopped atTop same]
          exact .inr ⟨value, _, rfl, rfl⟩

omit children in
theorem visitWithin_refines
    {drain : List (QueuedVisitor σ) -> τ -> VisitM τ ω σ γ (Option τ)}
    (drains : forall queue tree, (drain queue tree).Refines (drain queue tree))
    (depth : Nat)
    (tree : τ) :
    (traversal.visitWithin drain depth tree).Refines (exact.visitWithin drain depth tree) := by
  induction depth generalizing tree with
  | zero => exact .pure _
  | succ depth ih => exact enter_refines refines ih drains tree

omit children in
/-- A visit that queues no visitor is refined with its hooks. -/
theorem visit_refines
    (bounds : traversal.depthBound = exact.depthBound)
    (queues : forall own, traversal.generations own = 0 ∧ exact.generations own = 0)
    (tree : τ) :
    (traversal.visit tree).Refines (exact.visit tree) := by
  intro state
  rw [visit, visit, visitBounded, visitBounded, bounds, (queues _).1, (queues _).2]
  exact visitWithin_refines refines (fun _ _ => .pure _) _ tree state

end Traversal

/-! ## Visits of syntax trees -/

namespace Java

/-- The ordinary visit of a list is refined with the hooks of the visitor and the visits of the elements. -/
theorem GapVisitor.container_refines
    {visitor exact : GapVisitor σ γ}
    (spaces : forall place space, (visitor.space place space).Refines (exact.space place space))
    (markers : forall marker, (visitor.marker marker).Refines (exact.marker marker))
    {visit other : Tree -> TreeVisit σ γ (Option Tree)}
    (children : forall tree, (visit tree).Refines (other tree))
    (place : ContainerPlace)
    (list : Container Tree) :
    (visitor.container visit place list).Refines (exact.container other place list) :=
  container_relates VisitM.Refines.isCompositional [] spaces markers place list fun _ _ => children _

namespace Visitor

/-- The hooks refine one another, and the ones that visit children do so when those visits do. -/
structure Refines (visitor exact : Visitor σ γ) : Prop where
  space : forall place space, (visitor.space place space).Refines (exact.space place space)
  marker : forall marker, (visitor.marker marker).Refines (exact.marker marker)
  accepts : forall tree, (visitor.accepts tree).Refines (exact.accepts tree)
  acceptsSource : forall tree, (visitor.acceptsSource tree).Refines (exact.acceptsSource tree)
  before : forall tree, (visitor.before tree).Refines (exact.before tree)
  after : forall tree, (visitor.after tree).Refines (exact.after tree)
  visitContainer : forall visit other, (forall tree, (visit tree).Refines (other tree)) ->
    forall place list, (visitor.visitContainer visit place list).Refines (exact.visitContainer other place list)
  dispatch : forall descend other, (forall tree, (descend tree).Refines (other tree)) ->
    forall tree, (visitor.dispatch descend tree).Refines (exact.dispatch other tree)
  depthBound : visitor.depthBound = exact.depthBound
  generations : forall own, visitor.generations own = 0 ∧ exact.generations own = 0

variable {visitor exact : Visitor σ γ}

theorem Refines.traversal (refines : visitor.Refines exact) : visitor.traversal.Refines exact.traversal where
  accepts := refines.accepts
  acceptsSource := refines.acceptsSource
  before := refines.before
  after := refines.after
  dispatch := fun visit other children => refines.dispatch _ _ fun tree =>
    descend_relates VisitM.Refines.isCompositional [] refines.space refines.marker
      (fun place list _ => refines.visitContainer visit other children place list)
      tree fun _ _ => children _

theorem Refines.run
    (refines : visitor.Refines exact)
    (tree : Tree) :
    (visitor.run tree).Refines (exact.run tree) :=
  Traversal.visit_refines refines.traversal refines.depthBound refines.generations tree

end Visitor
end Java
end Lossless
