import Lossless.Format.Indents
import Lossless.Proofs.Visit.Steps
import Lossless.Proofs.Visit.Keeps

/-!
# Visits are balanced

Whatever the hooks do and however a visit ends, the visitor is back at the frames and at the nesting depth
from which it started, and the outermost visit leaves no visitor in the queue. A visitor that keeps nothing
to itself can therefore be used again after a failure as if it were new.

The hooks are assumed to leave the nesting depth alone, which only the visit of a node changes. Nothing is
assumed about the frames: a hook may leave the visitor anywhere.

The hooks of the formatting passes look at the state and put messages on frames; that is all they do to it.
So they keep every relation that does not look at messages, the visit of a list that the indentation has
in place of the ordinary one included.
-/

namespace Lossless

/-! ## What formatting passes keep -/

namespace Format

open Java VisitM

/-- A relation that puts of messages keep, at any height. -/
structure IsMessageRelation (relation : StateRelation Tree PaddingFrame Unit Unit) : Prop
    extends relation.IsFrameRelation where
  put : forall state key message height,
    relation state { state with cursor := state.cursor.putMessageBelow key message height }

variable {relation : StateRelation Tree PaddingFrame Unit Unit}
variable (isMessage : IsMessageRelation relation)

include isMessage

theorem putMessage_keeps
    (key : Text)
    (message : Message) :
    VisitM.Keeps relation (VisitM.putMessage (ω := PaddingFrame) (σ := Unit) (γ := Unit) key message) :=
  fun state => isMessage.put state key message 0

omit isMessage in
theorem isStopped_keeps
    (isFrame : relation.IsFrameRelation) :
    VisitM.Keeps relation VisitM.isStopped :=
  .bind isFrame (.get isFrame) fun _ => .pure isFrame _

omit isMessage in
theorem unlessStopped_keeps
    (isFrame : relation.IsFrameRelation)
    {value : α}
    {change : α -> PassVisit α}
    (keeps : (change value).Keeps relation) :
    VisitM.Keeps relation (Pass.unlessStopped value change) := by
  refine .bind isFrame (isStopped_keeps isFrame) fun stopped => ?_
  split
  · exact .pure isFrame _
  · exact keeps

namespace Indents

variable (style : IndentStyle)

theorem chainedIndent_keeps : VisitM.Keeps relation (chainedIndent style) := by
  have isFrame := isMessage.toIsFrameRelation
  refine .bind isFrame (.get isFrame) fun state => ?_
  dsimp only
  split
  · exact .pure isFrame _
  · exact .bind isFrame (.ofExcept isFrame _) fun _ =>
      .bind isFrame (fun state => isMessage.put state _ _ _) fun _ => .pure isFrame _

theorem columnOfSpace_keeps (place : SpacePlace) :
    VisitM.Keeps relation (columnOfSpace style place) := by
  have isFrame := isMessage.toIsFrameRelation
  refine .bind isFrame (.get isFrame) fun state => ?_
  dsimp only
  split
  · exact chainedIndent_keeps isMessage style
  · split
    · exact .pure isFrame _
    · exact .ofExcept isFrame _

theorem visitWrapped_keeps
    (place : SpacePlace)
    (space : Space) :
    VisitM.Keeps relation (visitWrapped style place space) := by
  have isFrame := isMessage.toIsFrameRelation
  have put (column : Nat) (key : Text) :=
    putMessage_keeps isMessage key (.column column)
  refine .bind isFrame (columnOfSpace_keeps isMessage style place) fun column =>
    .bind isFrame (.ofExcept isFrame _) fun indented => ?_
  dsimp only
  split
  · refine .bind isFrame (put column _) fun _ => ?_
    split
    · exact .bind isFrame (put column _) fun _ => .pure isFrame _
    · exact .pure isFrame _
  · split
    · exact .bind isFrame (put column _) fun _ => .pure isFrame _
    · exact .pure isFrame _

theorem visitSpace_keeps
    (place : SpacePlace)
    (space : Space) :
    VisitM.Keeps relation (visitSpace style place space) := by
  have isFrame := isMessage.toIsFrameRelation
  refine .bind isFrame (isStopped_keeps isFrame) fun stopped => ?_
  split
  · exact .pure isFrame _
  · split
    · exact .ofExcept isFrame _
    · split
      · exact .pure isFrame _
      · exact visitWrapped_keeps isMessage style place space

theorem enterNode_keeps (tree : Tree) : VisitM.Keeps relation (enterNode style tree) := by
  have isFrame := isMessage.toIsFrameRelation
  have put := putMessage_keeps isMessage
  have closing := VisitM.Keeps.bind isFrame (put nestingKey (.nesting (nestingOf style tree.form)))
    fun _ => .pure isFrame (some tree)
  unfold enterNode
  split
  · exact .bind isFrame (put _ _) fun _ => .bind isFrame (put _ _) fun _ => closing
  · exact closing

variable {visit : Tree -> PassVisit (Option Tree)}
variable (children : forall tree, (visit tree).Keeps relation)

include children

theorem visitElements_keeps
    (place : ElementPlace)
    (columns : ListColumns)
    (isFirst : Bool)
    (target : Nat)
    (list : List (RightPadded Tree)) :
    VisitM.Keeps relation (visitElements style visit place columns isFirst target list) := by
  have isFrame := isMessage.toIsFrameRelation
  induction list generalizing isFirst target with
  | nil => exact .pure isFrame _
  | cons padded rest ih =>
      refine .bind isFrame (.within isFrame ?_ _) fun visited => ?_
      · exact .bind isFrame (putMessage_keeps isMessage _ _) fun _ => children _
      · cases visited with
        | none => exact ih false target
        | some element =>
            exact .bind isFrame (.get isFrame) fun _ =>
              .bind isFrame (.ofExcept isFrame _) fun _ =>
                .bind isFrame (unlessStopped_keeps isFrame (.ofExcept isFrame _)) fun _ =>
                  .bind isFrame (ih false _) fun _ => .pure isFrame _

theorem visitList_keeps
    (place : ContainerPlace)
    (list : Container Tree) :
    VisitM.Keeps relation (visitList style visit place list) := by
  have isFrame := isMessage.toIsFrameRelation
  refine .bind isFrame (.get isFrame) fun _ => .bind isFrame (.within isFrame ?_ _) fun _ =>
    .pure isFrame _
  exact .bind isFrame (visitSpace_keeps isMessage style _ _) fun _ =>
    .bind isFrame (.ofExcept isFrame _) fun _ =>
      .bind isFrame (visitElements_keeps isMessage style children _ _ _ _ _) fun _ => .pure isFrame _

end Indents

/-- The hooks of the indentation do nothing to the state but put messages on frames. -/
theorem tabsAndIndents_keeps (style : IndentStyle) : (tabsAndIndents style).Keeps relation :=
  have isFrame := isMessage.toIsFrameRelation
  { space := Indents.visitSpace_keeps isMessage style
    marker := fun _ => .pure isFrame _
    accepts := fun _ => .pure isFrame _
    acceptsSource := fun _ => .pure isFrame _
    before := Indents.enterNode_keeps isMessage style
    after := fun _ => .pure isFrame _
    visitContainer := fun _ children => Indents.visitList_keeps isMessage style children
    dispatch := fun _ children => children }

end Format

variable {τ ω σ γ : Type}

/-! ## Frames and depth -/

namespace VisitState

/-- Both states are at the same nesting depth. -/
def SameDepth (state left : VisitState τ ω σ γ) : Prop :=
  left.depth = state.depth

/-- Both states are at the same frames and at the same nesting depth. -/
structure IsRestored (state left : VisitState τ ω σ γ) : Prop where
  frames : left.cursor.values = state.cursor.values
  depth : left.depth = state.depth

theorem sameDepth_isVisitRelation :
    StateRelation.IsVisitRelation (τ := τ) (ω := ω) (σ := σ) (γ := γ) SameDepth IsRestored where
  refl := fun _ => rfl
  trans := fun first second => Eq.trans second first
  within := fun inside => inside
  observe := fun _ kept => kept
  weaken := fun restored => restored.depth
  stay := fun _ => ⟨rfl, rfl⟩
  leave := fun {state left _} inside _ =>
    ⟨Cursor.values_returnTo _ _, by
      change left.depth - 1 = state.depth
      rw [show left.depth = state.depth + 1 from inside, Nat.add_sub_cancel]⟩
  finish := fun _ outermost => ⟨Cursor.values_returnTo _ _, outermost.symm⟩
  drain := fun first _ => ⟨(Cursor.values_returnTo _ _).trans first.frames, first.depth⟩

theorem sameDepth_isMessageRelation : Format.IsMessageRelation SameDepth where
  toIsFrameRelation := sameDepth_isVisitRelation.toIsFrameRelation
  put := fun _ _ _ _ => rfl

/-! ## Everything but messages above a height -/

/--
The later state differs at most in the messages of the higher frames, in what is queued, in what all
visitors share, and by having stopped. The frames at the bottom are looked at when there are enough.
-/
structure IsUndisturbed
    (count enough : Nat)
    (state left : VisitState τ ω σ γ) : Prop
    extends state.IsRestored left where
  own : left.own = state.own
  stop : left.stop = state.stop ∨ left.stop = .stopped
  lowest : enough ≤ state.cursor.frames.length ->
    left.cursor.lowest count = state.cursor.lowest count

section

variable {count enough : Nat}
variable {state left middle : VisitState τ ω σ γ}

theorem IsRestored.length_frames (restored : state.IsRestored left) :
    left.cursor.frames.length = state.cursor.frames.length := by
  rw [<- Cursor.length_values, restored.frames, Cursor.length_values]

theorem IsUndisturbed.trans
    (first : IsUndisturbed count enough state middle)
    (second : IsUndisturbed count enough middle left) :
    IsUndisturbed count enough state left where
  frames := second.frames.trans first.frames
  depth := second.depth.trans first.depth
  own := second.own.trans first.own
  stop := by
    rcases second.stop with same | stopped
    · rw [same]
      exact first.stop
    · exact .inr stopped
  lowest := fun isLow =>
    (second.lowest (first.length_frames.symm ▸ isLow)).trans (first.lowest isLow)

/-- Frames at the bottom stay as they are when an inner step is over. -/
theorem lowest_returned
    (state : VisitState τ ω σ γ)
    {value : FrameValue τ ω}
    (inside : left.cursor.values = (state.entered value).cursor.values)
    (same : left.cursor.lowest count = (state.entered value).cursor.lowest count)
    (isLow : count ≤ state.cursor.frames.length) :
    (state.returned left).cursor.lowest count = state.cursor.lowest count := by
  have frames : (state.returned left).cursor.frames = left.cursor.frames.drop 1 :=
    Cursor.frames_returnTo [value] inside
  have lengths := congrArg List.length inside
  rw [Cursor.length_values, Cursor.length_values] at lengths
  change left.cursor.frames.length = state.cursor.frames.length + 1 at lengths
  rw [show (state.entered value).cursor = state.cursor.push value from rfl,
    Cursor.lowest_push _ _ _ isLow] at same
  rw [<- same, Cursor.lowest, Cursor.lowest, frames, List.drop_drop, List.length_drop]
  congr 1
  omega

theorem isUndisturbed_isVisitRelation (count : Nat) :
    StateRelation.IsVisitRelation (τ := τ) (ω := ω) (σ := σ) (γ := γ)
      (IsUndisturbed count (count + 1)) (IsUndisturbed count count) where
  refl := fun _ => ⟨⟨rfl, rfl⟩, rfl, .inl rfl, fun _ => rfl⟩
  trans := .trans
  within := fun {state left _} inside =>
    ⟨⟨Cursor.values_returnTo _ _, inside.depth⟩, inside.own, inside.stop, fun isLow =>
      lowest_returned state inside.frames (inside.lowest (Nat.le_succ_of_le isLow)) (Nat.le_of_succ_le isLow)⟩
  observe := fun {state left} id kept =>
    { kept with
      stop := by
        change left.stop.observe id = _ ∨ left.stop.observe id = _
        unfold StopAfter.observe
        split
        · exact .inr rfl
        · exact kept.stop }
  weaken := fun restored =>
    { restored with lowest := fun isLow => restored.lowest (Nat.le_of_succ_le isLow) }
  stay := fun _ => ⟨⟨rfl, rfl⟩, rfl, .inl rfl, fun _ => rfl⟩
  leave := fun {state left _} inside _ =>
    ⟨⟨Cursor.values_returnTo _ _, by
        change left.depth - 1 = state.depth
        rw [inside.depth]
        rfl⟩,
      inside.own, inside.stop, fun isLow =>
        lowest_returned { state with depth := state.depth + 1 } inside.frames
          (inside.lowest (Nat.succ_le_succ isLow)) isLow⟩
  finish := fun {state left _} inside outermost =>
    ⟨⟨Cursor.values_returnTo _ _, outermost.symm⟩, inside.own, inside.stop, fun isLow =>
      lowest_returned { state with depth := state.depth + 1 } inside.frames
        (inside.lowest (Nat.succ_le_succ isLow)) isLow⟩
  drain := fun {state middle left _} first second =>
    ⟨⟨(Cursor.values_returnTo _ _).trans first.frames, first.depth⟩, first.own, first.stop, fun isLow => by
      have frames : (middle.drained left).cursor.frames = left.cursor.frames :=
        Cursor.frames_returnTo [] second.frames
      rw [Cursor.frames_injective frames, second.lowest (first.length_frames.symm ▸ isLow)]
      exact first.lowest isLow⟩

end
end VisitState

/-! ## The queue -/

namespace Traversal

variable [VisitNode τ] [Named ω]

theorem drainWith_queue
    (visit : τ -> VisitM τ ω σ γ (Option τ))
    (queue : List (QueuedVisitor σ))
    (tree : τ)
    (state : VisitState τ ω σ γ) :
    (drainWith visit queue tree state).2.queue = state.queue := by
  induction queue generalizing tree state with
  | nil => rfl
  | cons visitor rest ih =>
      unfold drainWith
      rcases visit tree (visitor.start state.cursor state.world) with ⟨error | (_ | result), left⟩
      · rfl
      · rfl
      · exact ih result _

variable (traversal : Traversal τ ω σ γ)

theorem drainWithin_queue
    (generations : Nat)
    (queue : List (QueuedVisitor σ))
    (tree : τ)
    (state : VisitState τ ω σ γ) :
    (traversal.drainWithin generations queue tree state).2.queue = state.queue := by
  cases generations with
  | zero => rfl
  | succ generations => exact drainWith_queue _ queue tree state

/-- The outermost visit leaves no visitor in the queue. -/
theorem visit_queue
    (tree : τ)
    (state : VisitState τ ω σ γ)
    (outermost : state.depth = 0)
    (goesOn : state.stop ≠ .stopped) :
    (traversal.visit tree state).2.queue = [] := by
  have notStopped : state.stop.isStopped = false := by
    cases stop : state.stop <;> simp_all [StopAfter.isStopped]
  simp only [visit, visitBounded, visitWithin, enter, notStopped, Bool.false_eq_true, if_false, outermost,
    if_true]
  split
  split
  · rw [drainWithin_queue]
  · rfl

/-! ## Balance -/

/-- The hooks keep nothing to themselves: the visitor's own state and the frames at the bottom stay. -/
abbrev IsStateless
    (traversal : Traversal τ ω σ γ)
    (bottom : Nat) : Prop :=
  traversal.Keeps (VisitState.IsUndisturbed bottom (bottom + 1))

/-- What holds after every visit, however it ends. -/
structure IsBalanced : Prop where
  /-- Every visit goes back to its frames and its depth, those of children and of queued visitors too. -/
  restores : forall generations depth tree (state : VisitState τ ω σ γ),
    state.IsRestored
      (traversal.visitWithin (traversal.drainWithin generations) depth tree state).2
  visitRestores : forall tree (state : VisitState τ ω σ γ), state.IsRestored (traversal.visit tree state).2
  /-- The outermost visit leaves no visitor in the queue. -/
  empties : forall tree (state : VisitState τ ω σ γ), state.depth = 0 -> state.stop ≠ .stopped ->
    (traversal.visit tree state).2.queue = []
  /-- After a run that did not get to its stop the visitor is as good as new. -/
  forgets : forall cursor, traversal.IsStateless cursor.frames.length ->
    forall stop own world tree, stop ≠ .stopped ->
      let left := (traversal.visit tree (.start cursor stop own world)).2
      left.stop ≠ .stopped ->
        forall next, traversal.visit next left =
          traversal.visit next (.start cursor stop own left.world)

theorem isBalanced (depths : traversal.Keeps VisitState.SameDepth) : traversal.IsBalanced where
  restores := fun _ depth tree state =>
    visitWithin_keeps VisitState.sameDepth_isVisitRelation depths
      (drainWithin_keeps VisitState.sameDepth_isVisitRelation depths _) depth tree state
  visitRestores := visit_keeps VisitState.sameDepth_isVisitRelation depths
  empties := traversal.visit_queue
  forgets := by
    intro cursor isStateless stop own world tree goesOn left reaches next
    have kept : VisitState.IsUndisturbed _ _ (.start cursor stop own world) left :=
      visit_keeps (VisitState.isUndisturbed_isVisitRelation _) isStateless tree _
    have emptied : left.queue = [] :=
      traversal.visit_queue tree (.start cursor stop own world) rfl goesOn
    have frames : left.cursor.frames = cursor.frames := by
      have lowest := kept.lowest (Nat.le_refl _)
      have start := Cursor.lowest_length cursor
      rw [<- Cursor.lowest_length left.cursor, kept.length_frames]
      exact lowest.trans start
    have fresh : left = .start cursor stop own left.world := by
      obtain ⟨after, depth, queue, reached, carried, shared⟩ := left
      obtain rfl := Cursor.frames_injective frames
      obtain rfl : reached = stop := kept.stop.resolve_right reaches
      obtain rfl : depth = 0 := kept.depth
      obtain rfl : carried = own := kept.own
      obtain rfl : queue = [] := emptied
      rfl
    rw [<- fresh]

end Traversal

/-- Visits of syntax trees and of data trees are balanced, and so are those that indent lists. -/
theorem visits_isBalanced :
    (forall visitor : Java.Visitor σ γ, visitor.Keeps VisitState.SameDepth ->
      visitor.traversal.IsBalanced) ∧
    (forall visitor : Json.Visitor σ γ, visitor.Keeps VisitState.SameDepth ->
      visitor.traversal.IsBalanced) ∧
    forall style, (Format.tabsAndIndents style).traversal.IsBalanced := by
  refine ⟨fun visitor keeps => ?_, fun visitor keeps => ?_, fun style => ?_⟩
  · exact Traversal.isBalanced _
      (Java.Visitor.traversal_keeps VisitState.sameDepth_isVisitRelation.toIsFrameRelation keeps)
  · exact Traversal.isBalanced _
      (Json.Visitor.traversal_keeps VisitState.sameDepth_isVisitRelation.toIsFrameRelation keeps)
  · have keeps := Format.tabsAndIndents_keeps VisitState.sameDepth_isMessageRelation style
    exact Traversal.isBalanced _
      (Java.Visitor.traversal_keeps VisitState.sameDepth_isVisitRelation.toIsFrameRelation keeps)

/-- A visitor that queues another one at every node and fails at every name. -/
def Java.objector : Java.Visitor Unit Unit where
  before := fun tree => do
    VisitM.queueAfter { own := () }
    return some tree
  after := fun tree =>
    match tree.form with
    | .identifier .. => throw (.ofCause (.visitor []))
    | _ => return some tree

theorem Java.objector_keeps
    {relation : StateRelation Java.Tree Java.PaddingFrame Unit Unit}
    (isFrame : relation.IsFrameRelation)
    (queue : (VisitM.queueAfter { own := () }).Keeps relation) :
    Java.objector.Keeps relation where
  space := fun _ _ => .pure isFrame _
  marker := fun _ => .pure isFrame _
  accepts := fun _ => .pure isFrame _
  acceptsSource := fun _ => .pure isFrame _
  before := fun _ => .bind isFrame queue fun _ => .pure isFrame _
  after := fun tree => by
    dsimp only [Java.objector]
    split
    · exact .throw isFrame _
    · exact .pure isFrame _
  visitContainer := fun _ children _ list =>
    Java.GapVisitor.container_has (VisitM.keepsProperty_isCompositional isFrame) children
      (fun _ _ => .pure isFrame _) (fun _ => .pure isFrame _) _ list
  dispatch := fun _ children => children

/-- A run that fails two levels down, after it queued three visitors, is as if it had not been. -/
theorem Java.objector_forgets :
    let start : VisitState Java.Tree Java.PaddingFrame Unit Unit := .start .root .never () ()
    let tree := Java.Tree.build (.returns (some (.build (.parentheses (.build (.identifier ['x']))))))
    let run := Java.objector.traversal.visit
    (exists error, (run tree start).1 = .error error) ∧
      forall next, run next (run tree start).2 = run next start := by
  refine ⟨⟨_, rfl⟩, fun next => ?_⟩
  have depths : Java.objector.Keeps VisitState.SameDepth :=
    Java.objector_keeps VisitState.sameDepth_isVisitRelation.toIsFrameRelation fun _ => rfl
  have isStateless : Java.objector.traversal.IsStateless 1 :=
    have isFrame := (VisitState.isUndisturbed_isVisitRelation 1).toIsFrameRelation
    Java.Visitor.traversal_keeps isFrame
      (Java.objector_keeps isFrame fun state =>
        { isFrame.refl state with lowest := fun _ => rfl })
  exact (visits_isBalanced.1 Java.objector depths).forgets .root isStateless .never () () _ nofun
    (by decide) next

/-- A visitor that leaves a message on the frame around a node and fails, unless it finds that message. -/
def Java.rememberer : Java.Visitor Unit Unit where
  before := fun tree => do
    let cursor := (<- get).cursor
    if (cursor.nearestMessage? Message.truth? "FAILED".toList).isSome then return some tree
    modify fun state => { state with cursor := cursor.putMessageBelow "FAILED".toList (.truth true) 1 }
    throw (.ofCause (.visitor []))

/-- What a failed run left on the outermost frame is found by the next one, which does what no fresh visitor does. -/
theorem Java.rememberer_remembers :
    let start : VisitState Java.Tree Java.PaddingFrame Unit Unit := .start .root .never () ()
    let tree := Java.Tree.build (.identifier ['x'] none)
    let run := Java.rememberer.traversal.visit
    (exists error, (run tree start).1 = .error error) ∧ (run tree start).2.stop ≠ .stopped ∧
      (run tree (run tree start).2).1 = .ok (some tree) :=
  ⟨⟨_, rfl⟩, by decide, rfl⟩

end Lossless
