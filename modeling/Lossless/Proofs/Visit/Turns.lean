import Lossless.Proofs.Visit.Balance
import Lossless.Proofs.Visit.Related

/-!
# The turns of queued visitors

A hook at any depth can queue a visitor. Nothing of it is seen before the outermost visit is over. If that visit
yields a tree, the queued visitors take their turns in the order of the queue, each on the result of the one before,
and a turn is a run like any other, with turns of its own inside. `IsRun` says so without a count of depths and without
a bound on generations, and every visit is such a run.

A visitor states how many generations of visitors can come from it. That is honest when the hooks queue only visitors
with fewer generations to come.

Only the outermost visit of a run looks at the queue. What a visit inside another one does is therefore the same
however queued visitors are run. `SameInside` says of two steps that nothing tells them apart once a visit has begun;
the walk through a node passes it on from the visits of the children to the whole.
-/

namespace Lossless

variable {τ ω σ γ α β : Type}

/-! ## Visits below the outermost one -/

section Nested

open VisitM VisitState

namespace VisitM

/-- Inside a visit both steps do the same, and they stay at their depth. -/
structure SameInside (step other : VisitM τ ω σ γ α) : Prop where
  same : forall state, state.depth ≠ 0 -> step state = other state
  stays : forall state, state.depth ≠ 0 -> (step state).2.depth = state.depth

namespace SameInside

theorem refl
    {step : VisitM τ ω σ γ α}
    (stays : step.Keeps SameDepth) :
    SameInside step step :=
  ⟨fun _ _ => rfl, fun state _ => stays state⟩

theorem pure (value : α) : SameInside (pure value : VisitM τ ω σ γ α) (pure value) :=
  refl (.pure sameDepth_isVisitRelation.toIsFrameRelation value)

theorem bind
    {step other : VisitM τ ω σ γ α}
    {next following : α -> VisitM τ ω σ γ β}
    (first : SameInside step other)
    (later : forall value, SameInside (next value) (following value)) :
    SameInside (step >>= next) (other >>= following) := by
  constructor
  · intro state nested
    refine bind_congr_at (first.same state nested) fun {value left} outcome => ?_
    have atDepth := first.stays state nested
    rw [outcome] at atDepth
    exact (later value).same left (atDepth ▸ nested)
  · intro state nested
    have atDepth := first.stays state nested
    rw [bind_apply]
    rcases outcome : step state with ⟨_ | value, left⟩
    · rwa [outcome] at atDepth
    · rw [outcome] at atDepth
      exact ((later value).stays left (atDepth ▸ nested)).trans atDepth

theorem within
    {step other : VisitM τ ω σ γ α}
    (inner : SameInside step other)
    (place : FrameValue τ ω) :
    SameInside (within place step) (within place other) := by
  constructor
  · intro state nested
    rw [within_apply, within_apply, inner.same (state.entered place) nested]
  · intro state nested
    exact inner.stays (state.entered place) nested

theorem attempt
    {step other : VisitM τ ω σ γ α}
    (inner : SameInside step other) :
    SameInside (attempt step) (attempt other) := by
  constructor
  · intro state nested
    rw [VisitM.attempt, VisitM.attempt, inner.same state nested]
  · intro state nested
    exact inner.stays state nested

/-- Where the steps run makes no difference. -/
theorem isCompositional :
    StepRelation.IsCompositional (τ := τ) (ω := ω) (σ := σ) (γ := γ) fun _ _ => SameInside where
  pure := pure
  bind := bind
  within := fun place inner => within inner (.padding place)
  defer := fun first second later fails failing =>
    bind (attempt first) fun outcome => bind second fun value => by
      cases outcome with
      | ok result => exact later result value
      | error error =>
          rw [fails, failing]
          exact refl (.throw sameDepth_isVisitRelation.toIsFrameRelation error)

end SameInside
end VisitM

/-! ## Syntax trees -/

namespace Java

theorem GapVisitor.container_sameInside
    {visit other : Tree -> TreeVisit σ γ (Option Tree)}
    (children : forall tree, SameInside (visit tree) (other tree))
    {visitor : GapVisitor σ γ}
    (spaces : forall place space, (visitor.space place space).Keeps SameDepth)
    (markers : forall marker, (visitor.marker marker).Keeps SameDepth)
    (place : ContainerPlace)
    (list : Container Tree) :
    SameInside (visitor.container visit place list) (visitor.container other place list) :=
  container_relates SameInside.isCompositional [] (fun _ _ => .refl (spaces _ _))
    (fun _ => .refl (markers _)) place list fun _ _ => children _

/-- The hooks stay at their depth, and the ones that visit children do the same inside a visit when those visits do. -/
structure Visitor.IsLocal (visitor : Visitor σ γ) : Prop where
  space : forall place space, (visitor.space place space).Keeps SameDepth
  marker : forall marker, (visitor.marker marker).Keeps SameDepth
  accepts : forall tree, (visitor.accepts tree).Keeps SameDepth
  acceptsSource : forall tree, (visitor.acceptsSource tree).Keeps SameDepth
  before : forall tree, (visitor.before tree).Keeps SameDepth
  after : forall tree, (visitor.after tree).Keeps SameDepth
  visitContainer : forall visit other, (forall tree, SameInside (visit tree) (other tree)) ->
    forall place list, SameInside (visitor.visitContainer visit place list) (visitor.visitContainer other place list)
  dispatch : forall descend other, (forall tree, SameInside (descend tree) (other tree)) ->
    forall tree, SameInside (visitor.dispatch descend tree) (visitor.dispatch other tree)

theorem Visitor.descend_sameInside
    {visitor : Visitor σ γ}
    (isLocal : visitor.IsLocal)
    {visit other : Tree -> TreeVisit σ γ (Option Tree)}
    (children : forall tree, SameInside (visit tree) (other tree))
    (tree : Tree) :
    SameInside (visitor.descend visit tree) (visitor.descend other tree) :=
  descend_relates SameInside.isCompositional [] (fun _ _ => .refl (isLocal.space _ _))
    (fun _ => .refl (isLocal.marker _))
    (fun place list _ => isLocal.visitContainer visit other children place list) tree fun _ _ => children _

end Java

/-! ## Data trees -/

namespace Json

/-- The hooks stay at their depth, and the dispatch does the same inside a visit when the walk through a node does. -/
structure Visitor.IsLocal (visitor : Visitor σ γ) : Prop where
  space : forall space, (visitor.space space).Keeps SameDepth
  marker : forall marker, (visitor.marker marker).Keeps SameDepth
  accepts : forall tree, (visitor.accepts tree).Keeps SameDepth
  acceptsSource : forall tree, (visitor.acceptsSource tree).Keeps SameDepth
  before : forall tree, (visitor.before tree).Keeps SameDepth
  after : forall tree, (visitor.after tree).Keeps SameDepth
  dispatch : forall descend other, (forall tree, SameInside (descend tree) (other tree)) ->
    forall tree, SameInside (visitor.dispatch descend tree) (visitor.dispatch other tree)

theorem Visitor.descend_sameInside
    {visitor : Visitor σ γ}
    (isLocal : visitor.IsLocal)
    {visit other : Tree -> TreeVisit σ γ (Option Tree)}
    (children : forall tree, SameInside (visit tree) (other tree))
    (tree : Tree) :
    SameInside (visitor.descend visit tree) (visitor.descend other tree) :=
  descend_relates SameInside.isCompositional [] (fun _ => .refl (isLocal.space _))
    (fun _ => .refl (isLocal.marker _)) tree fun _ _ => children _

end Json

/-! ## Visits -/

/-- The hooks stay at their depth, and the dispatch does the same inside a visit when the visits of the children do. -/
structure Traversal.IsLocal (traversal : Traversal τ ω σ γ) : Prop where
  accepts : forall tree, (traversal.accepts tree).Keeps SameDepth
  acceptsSource : forall tree, (traversal.acceptsSource tree).Keeps SameDepth
  before : forall tree, (traversal.before tree).Keeps SameDepth
  after : forall tree, (traversal.after tree).Keeps SameDepth
  dispatch : forall visit other, (forall tree, SameInside (visit tree) (other tree)) ->
    forall tree, SameInside (traversal.dispatch visit tree) (traversal.dispatch other tree)

theorem Java.Visitor.traversal_isLocal
    {visitor : Java.Visitor σ γ}
    (isLocal : visitor.IsLocal) :
    visitor.traversal.IsLocal where
  accepts := isLocal.accepts
  acceptsSource := isLocal.acceptsSource
  before := isLocal.before
  after := isLocal.after
  dispatch := fun _ _ children => isLocal.dispatch _ _ fun tree => descend_sameInside isLocal children tree

theorem Json.Visitor.traversal_isLocal
    {visitor : Json.Visitor σ γ}
    (isLocal : visitor.IsLocal) :
    visitor.traversal.IsLocal where
  accepts := isLocal.accepts
  acceptsSource := isLocal.acceptsSource
  before := isLocal.before
  after := isLocal.after
  dispatch := fun _ _ children => isLocal.dispatch _ _ fun tree => descend_sameInside isLocal children tree

namespace Traversal

variable [VisitNode τ] [Named ω]
variable {traversal : Traversal τ ω σ γ}
variable (isLocal : traversal.IsLocal)

include isLocal

omit [Named ω] in
theorem visitIfAccepted_sameInside
    {visit other : τ -> VisitM τ ω σ γ (Option τ)}
    (children : forall tree, SameInside (visit tree) (other tree))
    (tree : τ) :
    SameInside (traversal.visitIfAccepted visit tree) (traversal.visitIfAccepted other tree) := by
  have isFrame := sameDepth_isVisitRelation (τ := τ) (ω := ω) (σ := σ) (γ := γ) |>.toIsFrameRelation
  have inside (node : Option τ) :
      SameInside (traversal.visitInside visit node) (traversal.visitInside other node) := by
    cases node with
    | none => exact .pure none
    | some node =>
        apply SameInside.bind (isLocal.dispatch visit other children node)
        intro result
        cases result with
        | none => exact .pure none
        | some result => exact .refl (isLocal.after result)
  have wanted : (traversal.wants tree).Keeps SameDepth :=
    wants_has (keepsProperty_isCompositional isFrame) isLocal.accepts isLocal.acceptsSource tree
  have closing (last : Option τ) :
      SameInside (do VisitM.observe (τ := τ) (ω := ω) (σ := σ) (γ := γ) (Identified.id tree); return last)
        (do VisitM.observe (Identified.id tree); return last) :=
    .bind (.refl fun _ => rfl) fun _ => .pure _
  apply SameInside.bind (.refl wanted)
  intro isWanted
  split
  · apply SameInside.bind (.refl (isLocal.before tree))
    intro first
    apply SameInside.bind (.refl (.get isFrame))
    intro state
    dsimp only
    split
    · exact .bind (.pure _) closing
    · exact .bind (inside first) closing
  · exact .pure _

/-- Below the outermost visit it makes no difference how queued visitors are run. -/
theorem visitWithin_sameInside
    (drain other : List (QueuedVisitor σ) -> τ -> VisitM τ ω σ γ (Option τ))
    (depth : Nat)
    (tree : τ) :
    SameInside (traversal.visitWithin drain depth tree) (traversal.visitWithin other depth tree) := by
  induction depth generalizing tree with
  | zero => exact .pure (some tree)
  | succ depth ih =>
      have accepted := visitIfAccepted_sameInside isLocal ih tree
      constructor
      · intro state nested
        cases stopped : state.stop.isStopped with
        | true => exact (enter_of_stopped stopped).trans (enter_of_stopped stopped).symm
        | false =>
            have same := accepted.same (state.inside tree) (Nat.succ_ne_zero _)
            have located : locating (traversal.visitIfAccepted (traversal.visitWithin drain depth) tree)
                  (state.inside tree) =
                locating (traversal.visitIfAccepted (traversal.visitWithin other depth) tree)
                  (state.inside tree) := by
              rw [locating, locating, same]
            exact (enter_of_nested stopped nested rfl).trans (enter_of_nested stopped nested located.symm).symm
      · intro state nested
        have atDepth := accepted.stays (state.inside tree) (Nat.succ_ne_zero _)
        cases stopped : state.stop.isStopped with
        | true => exact congrArg (fun left => left.2.depth) (enter_of_stopped stopped)
        | false =>
            rcases inner : locating (traversal.visitIfAccepted (traversal.visitWithin drain depth) tree)
              (state.inside tree) with ⟨outcome, left⟩
            have entered : traversal.visitWithin drain (depth + 1) tree state =
                (outcome, { state.returned left with depth := left.depth - 1 }) :=
              enter_of_nested stopped nested inner
            have deeper : left.depth = state.depth + 1 := by
              rw [<- show (state.inside tree).depth = state.depth + 1 from rfl, <- atDepth]
              rw [locating] at inner
              split at inner <;> next outcome => rw [outcome]; cases inner; rfl
            rw [entered]
            change left.depth - 1 = state.depth
            omega

end Traversal

end Nested

/-! ## Turns -/

open VisitM

/-- The turn of a queued visitor, with the turns inside it. -/
inductive Turn (σ : Type)
  | mk (visitor : QueuedVisitor σ) (inside : List (Turn σ))

/-- The visitor, as it was queued. -/
def Turn.visitor : Turn σ -> QueuedVisitor σ
  | mk visitor _ => visitor

namespace Traversal

variable [VisitNode τ] [Named ω]

/-- The outermost visit by itself: nothing takes visitors out of the queue. -/
def visitAlone
    (traversal : Traversal τ ω σ γ)
    (tree : τ) : VisitM τ ω σ γ (Option τ) := fun state =>
  let visitChild := traversal.visitWithin (traversal.drainWithin 0) (traversal.depthBound state.own tree)
  let (outcome, left) := locating (traversal.visitIfAccepted visitChild tree) (state.inside tree)
  (outcome, { state.returned left with depth := state.depth })

variable (traversal : Traversal τ ω σ γ)

mutual

/-- A run from the outside: from a state, on a tree, to an outcome and a last state, with turns in order. -/
inductive IsRun :
    VisitState τ ω σ γ -> τ -> Except Error (Option τ) -> VisitState τ ω σ γ -> List (Turn σ) -> Prop
  | stopped {state tree} :
      state.stop.isStopped = true ->
        IsRun state tree (.ok (some tree)) state []
  | fails {state tree error left} :
      state.stop.isStopped = false ->
      traversal.visitAlone tree state = (.error error, left) ->
        IsRun state tree (.error error) { left with queue := [] } []
  | deletes {state tree left} :
      state.stop.isStopped = false ->
      traversal.visitAlone tree state = (.ok none, left) ->
        IsRun state tree (.ok none) { left with queue := [] } []
  | yields {state tree result left outcome last turns} :
      state.stop.isStopped = false ->
      traversal.visitAlone tree state = (.ok (some result), left) ->
      TakeTurns left.queue result { left with queue := [] } outcome last turns ->
        IsRun state tree outcome last turns

/-- Visitors take their turns on a tree, one after the other. -/
inductive TakeTurns :
    List (QueuedVisitor σ) -> τ -> VisitState τ ω σ γ -> Except Error (Option τ) -> VisitState τ ω σ γ ->
      List (Turn σ) -> Prop
  | done {tree state} :
      TakeTurns [] tree state (.ok (some tree)) state []
  | yields {visitor rest tree state result left inside outcome last turns} :
      IsRun (visitor.start state.cursor state.world) tree (.ok (some result)) left inside ->
      TakeTurns rest result (state.drained left) outcome last turns ->
        TakeTurns (visitor :: rest) tree state outcome last (.mk visitor inside :: turns)
  | deletes {visitor rest tree state left inside} :
      IsRun (visitor.start state.cursor state.world) tree (.ok none) left inside ->
        TakeTurns (visitor :: rest) tree state (.ok none) (state.drained left) [.mk visitor inside]
  | fails {visitor rest tree state error left inside} :
      IsRun (visitor.start state.cursor state.world) tree (.error error) left inside ->
        TakeTurns (visitor :: rest) tree state (.error (error.locate (state.drained left).cursor.path))
          (state.drained left) [.mk visitor inside]

end

variable {traversal}
variable {queue : List (QueuedVisitor σ)} {tree : τ} {state last : VisitState τ ω σ γ}
variable {outcome : Except Error (Option τ)} {turns : List (Turn σ)}

/-- Turns are taken from the front of the queue on, each once. -/
theorem TakeTurns.visitors_isPrefix
    (takes : traversal.TakeTurns queue tree state outcome last turns) :
    turns.map Turn.visitor <+: queue := by
  induction queue generalizing tree state turns with
  | nil =>
      cases takes
      exact List.nil_prefix
  | cons visitor rest ih =>
      cases takes with
      | yields _ later => exact (List.prefix_cons_inj visitor).2 (ih later)
      | deletes => exact ⟨rest, rfl⟩
      | fails => exact ⟨rest, rfl⟩

/-- When there is a tree in the end, every visitor of the queue has had its turn. -/
theorem TakeTurns.visitors_eq
    {result : τ}
    (takes : traversal.TakeTurns queue tree state (.ok (some result)) last turns) :
    turns.map Turn.visitor = queue := by
  induction queue generalizing tree state turns with
  | nil =>
      cases takes
      rfl
  | cons visitor rest ih =>
      cases takes with
      | yields _ later => exact congrArg (visitor :: ·) (ih later)

/-- Turns leave the queue of the visitor that they were queued by alone. -/
theorem TakeTurns.queue_eq
    (takes : traversal.TakeTurns queue tree state outcome last turns) :
    last.queue = state.queue := by
  induction queue generalizing tree state turns with
  | nil =>
      cases takes
      rfl
  | cons visitor rest ih =>
      cases takes with
      | yields _ later => exact (ih later).trans rfl
      | deletes => rfl
      | fails => rfl

end Traversal

/-! ## Honest visitors -/

/-- The visitors that wait for this one have fewer generations to come than it, and so on for theirs. -/
inductive QueuedVisitor.IsRanked (generations : σ -> Nat) : QueuedVisitor σ -> Prop
  | mk {visitor : QueuedVisitor σ} :
      (forall later, later ∈ visitor.waiting -> generations later.own < generations visitor.own) ->
      (forall later, later ∈ visitor.waiting -> later.IsRanked generations) ->
        visitor.IsRanked generations

/-- All of these visitors have fewer generations to come than some number. -/
def RankBelow
    (generations : σ -> Nat)
    (bound : Nat)
    (visitors : List (QueuedVisitor σ)) : Prop :=
  forall visitor, visitor ∈ visitors -> generations visitor.own < bound ∧ visitor.IsRanked generations

theorem QueuedVisitor.IsRanked.waiting
    {generations : σ -> Nat}
    {visitor : QueuedVisitor σ}
    (isRanked : visitor.IsRanked generations) :
    RankBelow generations (generations visitor.own) visitor.waiting := by
  cases isRanked with
  | mk fewer ranked => exact fun later member => ⟨fewer later member, ranked later member⟩

/--
Inside a visit the depth stays, and the queue only grows, at its end and by visitors with fewer generations to come.
-/
structure VisitState.OnlyQueues
    (generations : σ -> Nat)
    (state left : VisitState τ ω σ γ) : Prop where
  depth : left.depth = state.depth
  own : state.depth ≠ 0 -> generations left.own ≤ generations state.own
  queue : state.depth ≠ 0 -> exists added, left.queue = state.queue ++ added ∧
    RankBelow generations (generations state.own) added

open VisitState

theorem VisitState.OnlyQueues.trans
    {generations : σ -> Nat}
    {state middle left : VisitState τ ω σ γ}
    (first : OnlyQueues generations state middle)
    (second : OnlyQueues generations middle left) :
    OnlyQueues generations state left := by
  have nested (deep : state.depth ≠ 0) : middle.depth ≠ 0 := first.depth ▸ deep
  refine ⟨second.depth.trans first.depth, ?_, ?_⟩
  · intro deep
    exact Nat.le_trans (second.own (nested deep)) (first.own deep)
  · intro deep
    obtain ⟨added, grown, fewer⟩ := first.queue deep
    obtain ⟨more, grownAgain, fewerAgain⟩ := second.queue (nested deep)
    refine ⟨added ++ more, ?_, ?_⟩
    · rw [grownAgain, grown, List.append_assoc]
    · intro visitor member
      rcases List.mem_append.1 member with early | late
      · exact fewer visitor early
      · exact ⟨Nat.lt_of_lt_of_le (fewerAgain visitor late).1 (first.own deep), (fewerAgain visitor late).2⟩

theorem VisitState.OnlyQueues.refl
    (generations : σ -> Nat)
    (state : VisitState τ ω σ γ) :
    OnlyQueues generations state state :=
  ⟨rfl, fun _ => Nat.le_refl _, fun _ => ⟨[], (List.append_nil _).symm, nofun⟩⟩

theorem VisitState.onlyQueues_isVisitRelation (generations : σ -> Nat) :
    StateRelation.IsVisitRelation (τ := τ) (ω := ω) (σ := σ) (γ := γ)
      (OnlyQueues generations) (OnlyQueues generations) where
  refl := .refl generations
  trans := .trans
  within := fun inside => ⟨inside.depth, inside.own, inside.queue⟩
  observe := fun _ kept => ⟨kept.depth, kept.own, kept.queue⟩
  weaken := id
  stay := .refl generations
  leave := by
    intro state left tree inside nested
    have deep : (state.inside tree).depth ≠ 0 := Nat.succ_ne_zero _
    refine ⟨?_, fun _ => inside.own deep, fun _ => inside.queue deep⟩
    change left.depth - 1 = state.depth
    rw [show left.depth = state.depth + 1 from inside.depth, Nat.add_sub_cancel]
  finish := by
    intro state left tree inside outermost
    exact ⟨outermost.symm, fun deep => absurd outermost deep, fun deep => absurd outermost deep⟩
  drain := fun first _ => ⟨first.depth, first.own, first.queue⟩

/-- Every waiting visitor has fewer generations to come than the visitor that it waits for. -/
def VisitState.IsBounded
    (generations : σ -> Nat)
    (state : VisitState τ ω σ γ) : Prop :=
  RankBelow generations (generations state.own) state.queue

/-- The hooks do nothing to depth and queue but queue visitors, and the visitor counts its generations well. -/
structure Java.Visitor.IsHonest (visitor : Java.Visitor σ γ) : Prop where
  keeps : visitor.Keeps (OnlyQueues visitor.generations)
  isLocal : visitor.IsLocal

/-- The hooks do nothing to depth and queue but queue visitors, and the visitor counts its generations well. -/
structure Json.Visitor.IsHonest (visitor : Json.Visitor σ γ) : Prop where
  keeps : visitor.Keeps (OnlyQueues visitor.generations)
  isLocal : visitor.IsLocal

namespace Traversal

variable [VisitNode τ] [Named ω]
variable {traversal : Traversal τ ω σ γ}
variable (keeps : traversal.Keeps (OnlyQueues traversal.generations)) (isLocal : traversal.IsLocal)

section Alone

variable {state : VisitState τ ω σ γ} {tree : τ}

include isLocal

/-- A visit from the outside is the outermost visit by itself, and then the visitors that it has queued. -/
theorem visitBounded_eq
    (drain : List (QueuedVisitor σ) -> τ -> VisitM τ ω σ γ (Option τ))
    (outermost : state.depth = 0)
    (goesOn : state.stop.isStopped = false) :
    traversal.visitBounded drain tree state =
      match traversal.visitAlone tree state with
      | (.ok (some result), left) => drain left.queue result { left with queue := [] }
      | (outcome, left) => (outcome, { left with queue := [] }) := by
  have same := (visitIfAccepted_sameInside isLocal
    (visitWithin_sameInside isLocal drain (traversal.drainWithin 0) (traversal.depthBound state.own tree))
    tree).same (state.inside tree) (Nat.succ_ne_zero _)
  have located : locating (traversal.visitIfAccepted
        (traversal.visitWithin drain (traversal.depthBound state.own tree)) tree) (state.inside tree) =
      locating (traversal.visitIfAccepted
        (traversal.visitWithin (traversal.drainWithin 0) (traversal.depthBound state.own tree)) tree)
        (state.inside tree) := by
    rw [locating, locating, same]
  rw [visitBounded, visitAlone]
  rcases inner : locating (traversal.visitIfAccepted
      (traversal.visitWithin drain (traversal.depthBound state.own tree)) tree) (state.inside tree)
    with ⟨outcome, left⟩
  rw [<- located, inner]
  refine (enter_of_outermost goesOn outermost inner).trans ?_
  rw [outermost]
  rcases outcome with error | (_ | result) <;> rfl

end Alone

include keeps in
/-- The outermost visit queues only visitors with fewer generations to come. -/
theorem isBounded_visitAlone
    {state left : VisitState τ ω σ γ}
    {tree : τ}
    {outcome : Except Error (Option τ)}
    (bounded : state.IsBounded traversal.generations)
    (visited : traversal.visitAlone tree state = (outcome, left)) :
    RankBelow traversal.generations (traversal.generations state.own) left.queue := by
  have isVisit := onlyQueues_isVisitRelation (τ := τ) (ω := ω) (γ := γ) traversal.generations
  have children : forall child, (traversal.visitWithin (traversal.drainWithin 0)
      (traversal.depthBound state.own tree) child).Keeps (OnlyQueues traversal.generations) :=
    visitWithin_keeps isVisit keeps (drainWithin_keeps isVisit keeps 0) _
  have kept := locating_keeps (visitIfAccepted_keeps isVisit keeps children tree) (state.inside tree)
  obtain ⟨added, grown, fewer⟩ := kept.queue (Nat.succ_ne_zero _)
  rw [visitAlone] at visited
  cases visited
  intro visitor member
  change visitor ∈ (locating _ (state.inside tree)).2.queue at member
  rw [grown] at member
  rcases List.mem_append.1 member with early | late
  · exact bounded visitor early
  · exact fewer visitor late

theorem drainWith_cons
    (visit : τ -> VisitM τ ω σ γ (Option τ))
    (visitor : QueuedVisitor σ)
    (rest : List (QueuedVisitor σ))
    (tree : τ)
    (state : VisitState τ ω σ γ) :
    drainWith visit (visitor :: rest) tree state =
      match visit tree (visitor.start state.cursor state.world) with
      | (.ok (some result), left) => drainWith visit rest result (state.drained left)
      | (.ok none, left) => (.ok none, state.drained left)
      | (.error error, left) =>
          (.error (error.locate (state.drained left).cursor.path), state.drained left) := by
  conv => lhs; unfold drainWith
  rcases visit tree (visitor.start state.cursor state.world) with ⟨_ | (_ | _), _⟩ <;> rfl

/-- Visitors whose visits are runs take their turns. -/
theorem drainWith_takeTurns
    {visit : τ -> VisitM τ ω σ γ (Option τ)}
    {queue : List (QueuedVisitor σ)}
    (runs : forall visitor, visitor ∈ queue -> forall tree cursor world, exists inside,
      traversal.IsRun (visitor.start cursor world) tree (visit tree (visitor.start cursor world)).1
        (visit tree (visitor.start cursor world)).2 inside)
    (tree : τ)
    (state : VisitState τ ω σ γ) :
    exists turns, traversal.TakeTurns queue tree state (drainWith visit queue tree state).1
      (drainWith visit queue tree state).2 turns := by
  induction queue generalizing tree state with
  | nil => exact ⟨[], .done⟩
  | cons visitor rest ih =>
      obtain ⟨inside, isRun⟩ := runs visitor List.mem_cons_self tree state.cursor state.world
      rw [drainWith_cons]
      generalize visit tree (visitor.start state.cursor state.world) = visited at isRun
      rcases visited with ⟨error | (_ | result), left⟩
      · exact ⟨_, .fails isRun⟩
      · exact ⟨_, .deletes isRun⟩
      · obtain ⟨turns, takes⟩ := ih (fun visitor member => runs visitor (List.mem_cons_of_mem _ member)) result
          (state.drained left)
        exact ⟨_, .yields isRun takes⟩

include keeps isLocal

/-- A visit is a run when the visitors that it queues take their turns afterwards. -/
theorem visitBounded_isRun_of_takeTurns
    {drain : List (QueuedVisitor σ) -> τ -> VisitM τ ω σ γ (Option τ)}
    {state : VisitState τ ω σ γ}
    (tree : τ)
    (outermost : state.depth = 0)
    (bounded : state.IsBounded traversal.generations)
    (takes : forall queue, RankBelow traversal.generations (traversal.generations state.own) queue ->
      forall (tree : τ) state, exists turns,
        traversal.TakeTurns queue tree state (drain queue tree state).1 (drain queue tree state).2 turns) :
    exists turns, traversal.IsRun state tree (traversal.visitBounded drain tree state).1
      (traversal.visitBounded drain tree state).2 turns := by
  cases stopped : state.stop.isStopped with
  | true =>
      have same : traversal.visitBounded drain tree state = (.ok (some tree), state) := enter_of_stopped stopped
      rw [same]
      exact ⟨[], .stopped stopped⟩
  | false =>
      rw [visitBounded_eq isLocal _ outermost stopped]
      rcases alone : traversal.visitAlone tree state with ⟨error | (_ | result), left⟩
      · exact ⟨[], .fails stopped alone⟩
      · exact ⟨[], .deletes stopped alone⟩
      · obtain ⟨turns, taken⟩ := takes left.queue (isBounded_visitAlone keeps bounded alone) result
          { left with queue := [] }
        exact ⟨turns, .yields stopped alone taken⟩

/-- With enough generations a visit from the outside is a run. -/
theorem visitBounded_isRun
    (generations : Nat)
    (tree : τ)
    (state : VisitState τ ω σ γ)
    (enough : traversal.generations state.own ≤ generations)
    (outermost : state.depth = 0)
    (bounded : state.IsBounded traversal.generations) :
    exists turns, traversal.IsRun state tree
      (traversal.visitBounded (traversal.drainWithin generations) tree state).1
      (traversal.visitBounded (traversal.drainWithin generations) tree state).2 turns := by
  induction generations generalizing tree state with
  | zero =>
      apply visitBounded_isRun_of_takeTurns keeps isLocal tree outermost bounded
      intro queue fewer tree state
      have isEmpty : queue = [] := by
        apply List.eq_nil_iff_forall_not_mem.2
        intro visitor member
        have := (fewer visitor member).1
        omega
      rw [isEmpty]
      exact ⟨[], .done⟩
  | succ generations ih =>
      apply visitBounded_isRun_of_takeTurns keeps isLocal tree outermost bounded
      intro queue fewer tree state
      apply drainWith_takeTurns
      intro visitor member tree cursor world
      obtain ⟨rank, isRanked⟩ := fewer visitor member
      have enough : traversal.generations visitor.own ≤ generations := by omega
      exact ih tree (visitor.start cursor world) enough rfl isRanked.waiting

end Traversal

end Lossless
