import Lossless.Format.Auto
import Lossless.Proofs.Visit.Balance
import Lossless.Proofs.Visit.Failure
import Lossless.Proofs.Visit.Related
import Mathlib.Data.List.Chain

/-!
# The frames of a node are its path

A hook that looks at the frames sees where its node stands: its own frame, then one for each padding that was crossed,
then those of the node around it, and so on down to the node at which the visit began. A visit asks nothing of the
dispatch at any other frames. So it makes no difference what the dispatch would do there.

The hooks are assumed to leave the frames alone, to hand on the node that they are given before the dispatch, and to
visit no other children than those of the node, each in its own frames. The visitors that format are of this kind.
-/

namespace Lossless

variable {τ ω σ γ α β : Type}

open VisitState

/-! ## Steps at the same frames -/

namespace VisitM

/-- From these frames both steps do the same, and they come back to them. -/
structure SameAt
    (frames : List (FrameValue τ ω))
    (step other : VisitM τ ω σ γ α) : Prop where
  same : forall state, state.cursor.values = frames -> step state = other state
  stays : forall state, state.cursor.values = frames -> (step state).2.cursor.values = frames

namespace SameAt

variable {frames : List (FrameValue τ ω)}

theorem refl
    {step : VisitM τ ω σ γ α}
    (stays : step.Keeps SameFrames) :
    SameAt frames step step :=
  ⟨fun _ _ => rfl, fun state atFrames => (stays state).trans atFrames⟩

theorem bind
    {step other : VisitM τ ω σ γ α}
    {next following : α -> VisitM τ ω σ γ β}
    (first : SameAt frames step other)
    (later : forall value, SameAt frames (next value) (following value)) :
    SameAt frames (step >>= next) (other >>= following) := by
  constructor
  · intro state atFrames
    refine bind_congr_at (first.same state atFrames) fun {value left} outcome => ?_
    have stays := first.stays state atFrames
    rw [outcome] at stays
    exact (later value).same left stays
  · intro state atFrames
    have stays := first.stays state atFrames
    rw [bind_apply]
    rcases outcome : step state with ⟨_ | value, left⟩ <;> rw [outcome] at stays
    · exact stays
    · exact (later value).stays left stays

theorem within
    {step other : VisitM τ ω σ γ α}
    (value : FrameValue τ ω)
    (inner : SameAt (value :: frames) step other) :
    SameAt frames (within value step) (within value other) := by
  constructor
  · intro state atFrames
    rw [within_apply, within_apply, inner.same (state.entered value) (congrArg (value :: ·) atFrames)]
  · intro state atFrames
    exact (Cursor.values_returnTo _ _).trans atFrames

theorem attempt
    {step other : VisitM τ ω σ γ α}
    (inner : SameAt frames step other) :
    SameAt frames (attempt step) (attempt other) := by
  constructor
  · intro state atFrames
    rw [VisitM.attempt, VisitM.attempt, inner.same state atFrames]
  · intro state atFrames
    exact inner.stays state atFrames

theorem isCompositional :
    StepRelation.IsCompositional (τ := τ) (ω := ω) (σ := σ) (γ := γ) fun frames _ => SameAt frames where
  pure := fun value => refl (.pure sameFrames_isFrameRelation value)
  bind := bind
  within := fun place => within (.padding place)
  defer := fun first second later fails failing =>
    bind (attempt first) fun outcome => bind second fun value => by
      cases outcome with
      | ok result => exact later result value
      | error error =>
          rw [fails, failing]
          exact refl (.throw sameFrames_isFrameRelation error)

end SameAt
end VisitM

open VisitM

/-! ## Paths -/

/-- The frames of a node: its own, one for each padding, and those of its parent, down to where the visit began. -/
inductive Mirrors
    (children : τ -> List (PaddedChild τ ω))
    (base : List (FrameValue τ ω))
    (root : τ) : τ -> List (FrameValue τ ω) -> Prop
  | top : Mirrors children base root root (.tree root :: base)
  | child {parent : τ} {frames : List (FrameValue τ ω)} (padded : PaddedChild τ ω) :
      Mirrors children base root parent frames -> padded ∈ children parent ->
        Mirrors children base root padded.child (.tree padded.child :: padded.framesOn frames)

/-- The hooks leave the frames alone, and the dispatch visits children in their own frames. -/
structure Traversal.WalksInPlace
    (traversal : Traversal τ ω σ γ)
    (children : τ -> List (PaddedChild τ ω)) : Prop where
  accepts : forall tree, (traversal.accepts tree).Keeps SameFrames
  acceptsSource : forall tree, (traversal.acceptsSource tree).Keeps SameFrames
  before : forall tree, (traversal.before tree).Keeps SameFrames
  handsOn : forall {tree state first left}, traversal.before tree state = (.ok first, left) -> first = some tree
  dispatch : forall {frames tree visit other},
    (forall padded, padded ∈ children tree ->
      SameAt (padded.framesOn frames) (visit padded.child) (other padded.child)) ->
    SameAt frames (traversal.dispatch visit tree) (traversal.dispatch other tree)

namespace Traversal

/-- The traversal with another dispatch. -/
abbrev withDispatch
    (traversal : Traversal τ ω σ γ)
    (dispatch : (τ -> VisitM τ ω σ γ (Option τ)) -> τ -> VisitM τ ω σ γ (Option τ)) : Traversal τ ω σ γ :=
  { traversal with dispatch := dispatch }

/-- Nothing is asked of the dispatch at frames that do not mirror the path from the root of the visit. -/
def MirrorsPath
    [VisitNode τ]
    [Named ω]
    (traversal : Traversal τ ω σ γ)
    (children : τ -> List (PaddedChild τ ω)) : Prop :=
  forall (elsewhere : (τ -> VisitM τ ω σ γ (Option τ)) -> τ -> VisitM τ ω σ γ (Option τ))
      (generations : Nat) (root : τ) (state : VisitState τ ω σ γ),
    (forall visit tree inner, Mirrors children state.cursor.values root tree inner.cursor.values ->
      elsewhere visit tree inner = traversal.dispatch visit tree inner) ->
    (traversal.withDispatch elsewhere).visitBounded (traversal.drainWithin generations) root state =
      traversal.visitBounded (traversal.drainWithin generations) root state

section Visit

variable [VisitNode τ] [Named ω]
variable {traversal : Traversal τ ω σ γ}
variable {children : τ -> List (PaddedChild τ ω)}

/-- Queued visitors go back to the frames from which they started. -/
theorem drainWith_sameFrames
    (visit : τ -> VisitM τ ω σ γ (Option τ))
    (queue : List (QueuedVisitor σ))
    (tree : τ) :
    (drainWith visit queue tree).Keeps SameFrames := by
  induction queue generalizing tree with
  | nil => exact fun _ => rfl
  | cons visitor rest ih =>
      intro state
      unfold drainWith
      rcases visit tree (visitor.start state.cursor state.world) with ⟨_ | _ | result, left⟩
      · exact Cursor.values_returnTo _ _
      · exact Cursor.values_returnTo _ _
      · exact (ih result _).trans (Cursor.values_returnTo _ _)

theorem drainWithin_sameFrames
    (generations : Nat)
    (queue : List (QueuedVisitor σ))
    (tree : τ) :
    (traversal.drainWithin generations queue tree).Keeps SameFrames := by
  cases generations with
  | zero => exact fun _ => rfl
  | succ generations => exact drainWith_sameFrames _ queue tree

/-- A node is left at the frames at which it was entered. -/
theorem enter_sameFrames
    {drain : List (QueuedVisitor σ) -> τ -> VisitM τ ω σ γ (Option τ)}
    (drains : forall queue tree, (drain queue tree).Keeps SameFrames)
    (visitChild : τ -> VisitM τ ω σ γ (Option τ))
    (tree : τ) :
    (traversal.enter drain visitChild tree).Keeps SameFrames := by
  intro state
  unfold enter
  split
  · rfl
  · simp only [within_apply]
    split
    · split
      · exact (drains _ _ _).trans (Cursor.values_returnTo _ _)
      · exact Cursor.values_returnTo _ _
    · exact Cursor.values_returnTo _ _

/-- The visit of a node depends on what its hooks and its dispatch do in its frame. -/
theorem enter_congr
    {first second : Traversal τ ω σ γ}
    {drain : List (QueuedVisitor σ) -> τ -> VisitM τ ω σ γ (Option τ)}
    {visit other : τ -> VisitM τ ω σ γ (Option τ)}
    {tree : τ}
    {state : VisitState τ ω σ γ}
    (same : first.visitIfAccepted visit tree (state.inside tree) =
      second.visitIfAccepted other tree (state.inside tree)) :
    first.enter drain visit tree state = second.enter drain other tree state := by
  have located : locating (first.visitIfAccepted visit tree) (state.inside tree) =
      locating (second.visitIfAccepted other tree) (state.inside tree) := by
    rw [locating, locating, same]
  rw [VisitState.inside] at located
  unfold enter
  rw [within_apply, within_apply, located]

variable (walks : traversal.WalksInPlace children)
variable {elsewhere : (τ -> VisitM τ ω σ γ (Option τ)) -> τ -> VisitM τ ω σ γ (Option τ)}

include walks

omit [Named ω] in
/-- At its own frames a node is visited alike when its children are. -/
theorem visitIfAccepted_sameAt
    {visit other : τ -> VisitM τ ω σ γ (Option τ)}
    {tree : τ}
    {frames : List (FrameValue τ ω)}
    (agrees : forall inner, inner.cursor.values = frames ->
      elsewhere visit tree inner = traversal.dispatch visit tree inner)
    (each : forall padded, padded ∈ children tree ->
      SameAt (padded.framesOn frames) (visit padded.child) (other padded.child))
    {state : VisitState τ ω σ γ}
    (atFrames : state.cursor.values = frames) :
    (traversal.withDispatch elsewhere).visitIfAccepted visit tree state =
      traversal.visitIfAccepted other tree state := by
  refine bind_congr_at rfl fun {isWanted wanting} (wanted : traversal.wants tree state = _) => ?_
  have atWanted : wanting.cursor.values = frames := by
    have kept := wants_has (keepsProperty_isCompositional sameFrames_isFrameRelation)
      walks.accepts walks.acceptsSource tree state
    rw [wanted] at kept
    exact Eq.trans kept atFrames
  split
  · refine bind_congr_at rfl fun {first middle} (handed : traversal.before tree wanting = _) => ?_
    have atMiddle : middle.cursor.values = frames := by
      have kept := walks.before tree wanting
      rw [handed] at kept
      exact Eq.trans kept atWanted
    obtain rfl := walks.handsOn handed
    refine bind_congr_at rfl fun {looked left} (same : (get : VisitM τ ω σ γ _) middle = _) => ?_
    cases same
    dsimp only
    split
    · rfl
    · refine bind_congr_at (bind_congr_at ?_ fun _ => rfl) fun _ => rfl
      exact (agrees middle atMiddle).trans ((walks.dispatch each).same middle atMiddle)
  · rfl

/-- Below a node that is reached on its path, every dispatch is asked at the path of its node. -/
theorem visitWithin_sameAt
    {drain : List (QueuedVisitor σ) -> τ -> VisitM τ ω σ γ (Option τ)}
    (drains : forall queue tree, (drain queue tree).Keeps SameFrames)
    {base : List (FrameValue τ ω)}
    {root : τ}
    (agrees : forall visit tree inner, Mirrors children base root tree inner.cursor.values ->
      elsewhere visit tree inner = traversal.dispatch visit tree inner)
    (depth : Nat)
    {tree : τ}
    {frames : List (FrameValue τ ω)}
    (mirrors : Mirrors children base root tree (.tree tree :: frames)) :
    SameAt frames ((traversal.withDispatch elsewhere).visitWithin drain depth tree)
      (traversal.visitWithin drain depth tree) := by
  induction depth generalizing tree frames with
  | zero => exact .refl (.pure sameFrames_isFrameRelation _)
  | succ depth ih =>
      constructor
      · intro state atFrames
        have inside : (state.inside tree).cursor.values = .tree tree :: frames := by
          rw [<- atFrames]
          rfl
        apply enter_congr
        exact visitIfAccepted_sameAt walks (fun inner atNode => agrees _ tree inner (atNode ▸ mirrors))
          (fun padded member => ih (.child _ mirrors member)) inside
      · intro state atFrames
        exact (enter_sameFrames drains _ tree state).trans atFrames

theorem WalksInPlace.mirrorsPath : traversal.MirrorsPath children := by
  intro elsewhere generations root state agrees
  exact (visitWithin_sameAt walks (drainWithin_sameFrames generations) agrees _ .top).same state rfl

end Visit
end Traversal

/-! ## What the frames tell -/

/--
A cursor at a node of a tree: the nodes on its stack are the node and those around it, each a child of the next one, out
to the root of the tree. The closest stack below that ends in a node has the node around, or is the sentinel alone.
-/
structure Cursor.StandsIn
    (children : τ -> List τ)
    (root node : τ)
    (around : List τ)
    (cursor : Cursor (FrameValue τ ω)) : Prop where
  trees : cursor.trees = node :: around
  steps : (node :: around).IsChain fun child parent => child ∈ children parent
  ends : (node :: around).getLast? = some root
  parent : exists parent, cursor.parentTree? = some parent ∧ parent.tree? = around.head? ∧
    (around = [] -> parent.values = [.root])

namespace Cursor

/-- The closest stack that does not end in a padding. -/
theorem find?_ancestors
    {cursor : Cursor (FrameValue τ ω)}
    {paddings : List ω}
    {next : FrameValue τ ω}
    {below : List (FrameValue τ ω)}
    (values : cursor.values = paddings.map .padding ++ next :: below)
    (isPlain : next.padding? = none) :
    exists ancestor,
      (cursor.ancestors.find? fun ancestor => ancestor.top.value.isRoot || ancestor.tree?.isSome) =
          some ancestor ∧
        ancestor.values = next :: below := by
  obtain ⟨top, frames⟩ := cursor
  induction paddings generalizing top frames with
  | nil =>
      have atTop : top.value = next := (List.cons_eq_cons.mp values).1
      refine ⟨⟨top, frames⟩, ?_, values⟩
      cases frames <;> cases next <;>
        simp_all [ancestors, ancestors.cursorsFrom, tree?, FrameValue.isRoot, FrameValue.tree?,
          FrameValue.padding?]
  | cons padding rest ih =>
      obtain ⟨atTop, others⟩ := List.cons_eq_cons.mp values
      obtain _ | ⟨frame, frames⟩ := frames
      · simp at others
      · obtain ⟨ancestor, found, same⟩ := ih frame frames others
        refine ⟨ancestor, ?_, same⟩
        have isPadding : top.value = .padding padding := atTop
        exact (List.find?_cons_of_neg (by simp [tree?, isPadding, FrameValue.isRoot, FrameValue.tree?])).trans found

/-- Below a frame and its paddings stands the closest one of a node or of the root. -/
theorem exists_parentTree?
    {cursor : Cursor (FrameValue τ ω)}
    {value next : FrameValue τ ω}
    (paddings : List ω)
    {below : List (FrameValue τ ω)}
    (values : cursor.values = value :: (paddings.map .padding ++ next :: below))
    (isPlain : next.padding? = none) :
    exists parent, cursor.parentTree? = some parent ∧ parent.values = next :: below := by
  obtain ⟨top, _ | ⟨frame, frames⟩⟩ := cursor
  · simp [Cursor.values, Cursor.frames] at values
  · have below : Cursor.values ⟨frame, frames⟩ = _ := (List.cons_eq_cons.mp values).2
    exact find?_ancestors below isPlain

theorem tree?_of_values
    {cursor : Cursor (FrameValue τ ω)}
    {value : FrameValue τ ω}
    {below : List (FrameValue τ ω)}
    (values : cursor.values = value :: below) :
    cursor.tree? = value.tree? :=
  congrArg FrameValue.tree? (List.cons_eq_cons.mp values).1

end Cursor

/-- Paddings are no nodes. -/
@[simp] theorem PaddedChild.filterMap_framesOn
    (padded : PaddedChild τ ω)
    (frames : List (FrameValue τ ω)) :
    (padded.framesOn frames).filterMap FrameValue.tree? = frames.filterMap FrameValue.tree? := by
  have noTrees : (padded.paddings.map (FrameValue.padding (τ := τ))).filterMap FrameValue.tree? = [] := by
    simp [FrameValue.tree?]
  rw [framesOn, List.filterMap_append, noTrees, List.nil_append]

namespace Mirrors

variable {children : τ -> List (PaddedChild τ ω)}
variable {base frames : List (FrameValue τ ω)}
variable {root node : τ}

/-- The innermost frame is the node's own. -/
theorem exists_below (mirrors : Mirrors children base root node frames) :
    exists below, frames = .tree node :: below := by
  cases mirrors <;> exact ⟨_, rfl⟩

/-- The frames at which the visit began are at the bottom. -/
theorem base_suffix (mirrors : Mirrors children base root node frames) : base <:+ frames := by
  induction mirrors with
  | top => exact List.suffix_cons _ _
  | child _ mirrors isChild ih => exact (ih.trans (List.suffix_append _ _)).trans (List.suffix_cons _ _)

/-- The nodes among the frames are those around the node. -/
theorem exists_around (mirrors : Mirrors children base root node frames) :
    exists around,
      frames.filterMap FrameValue.tree? = node :: around ++ base.filterMap FrameValue.tree? ∧
      (node :: around).IsChain (fun child parent => child ∈ (children parent).map PaddedChild.child) ∧
      (node :: around).getLast? = some root := by
  induction mirrors with
  | top => exact ⟨[], rfl, .singleton _, rfl⟩
  | @child parent frames padded mirrors isChild ih =>
      obtain ⟨around, trees, steps, ends⟩ := ih
      refine ⟨parent :: around, ?_, .cons_cons (List.mem_map_of_mem isChild) steps, ?_⟩
      · rw [List.filterMap_cons, padded.filterMap_framesOn, trees]
        rfl
      · rw [List.getLast?_cons_cons, ends]

/-- A cursor whose frames mirror the path from the root stands in the tree. -/
theorem standsIn
    {cursor : Cursor (FrameValue τ ω)}
    (mirrors : Mirrors children [.root] root node cursor.values) :
    exists around, cursor.StandsIn (fun tree => (children tree).map PaddedChild.child) root node around := by
  obtain ⟨around, trees, steps, ends⟩ := mirrors.exists_around
  replace trees : cursor.values.filterMap FrameValue.tree? = node :: around :=
    trees.trans (List.append_nil _)
  refine ⟨around, trees, steps, ends, ?_⟩
  generalize values : cursor.values = frames at mirrors trees
  cases mirrors with
  | top =>
      obtain ⟨parent, found, below⟩ := Cursor.exists_parentTree? [] values rfl
      obtain rfl : [] = around := (List.cons_eq_cons.mp trees).2
      exact ⟨parent, found, Cursor.tree?_of_values below, fun _ => below⟩
  | @child outer frames padded mirrors isChild =>
      obtain ⟨below, rfl⟩ := mirrors.exists_below
      obtain ⟨parent, found, atParent⟩ := Cursor.exists_parentTree? _ values rfl
      rw [List.filterMap_cons, padded.filterMap_framesOn] at trees
      obtain rfl : outer :: below.filterMap FrameValue.tree? = around := (List.cons_eq_cons.mp trees).2
      exact ⟨parent, found, Cursor.tree?_of_values atParent, nofun⟩

end Mirrors

/-! ## Visitors of syntax trees -/

namespace Java

/-- The children of a node, each with the paddings around it. -/
def Tree.paddedChildren (tree : Tree) : List (PaddedChild Tree PaddingFrame) :=
  tree.form.paddedChildren

/-- The hooks leave the frames alone, and those that visit children visit them in their own frames. -/
structure Visitor.WalksInPlace (visitor : Visitor σ γ) : Prop where
  space : forall place space, (visitor.space place space).Keeps SameFrames
  marker : forall marker, (visitor.marker marker).Keeps SameFrames
  accepts : forall tree, (visitor.accepts tree).Keeps SameFrames
  acceptsSource : forall tree, (visitor.acceptsSource tree).Keeps SameFrames
  before : forall tree, (visitor.before tree).Keeps SameFrames
  handsOn : forall {tree state first left}, visitor.before tree state = (.ok first, left) -> first = some tree
  visitContainer : forall {frames visit other} place list,
    (forall padded, padded ∈ ContainerPlace.paddedChildren place list ->
      SameAt (padded.framesOn frames) (visit padded.child) (other padded.child)) ->
    SameAt frames (visitor.visitContainer visit place list) (visitor.visitContainer other place list)
  dispatch : forall {frames tree descend other}, SameAt frames (descend tree) (other tree) ->
    SameAt frames (visitor.dispatch descend tree) (visitor.dispatch other tree)

/-- The ordinary visit of a list visits its elements in the frames of the list. -/
theorem GapVisitor.container_sameAt
    {visitor : GapVisitor σ γ}
    (spaces : forall place space, (visitor.space place space).Keeps SameFrames)
    (markers : forall marker, (visitor.marker marker).Keeps SameFrames)
    {frames : List TreeFrame}
    {visit other : Tree -> TreeVisit σ γ (Option Tree)}
    (place : ContainerPlace)
    (list : Container Tree)
    (each : forall padded, padded ∈ place.paddedChildren list ->
      SameAt (padded.framesOn frames) (visit padded.child) (other padded.child)) :
    SameAt frames (visitor.container visit place list) (visitor.container other place list) :=
  container_relates SameAt.isCompositional _ (fun _ _ => .refl (spaces _ _)) (fun _ => .refl (markers _))
    place list each

theorem Visitor.WalksInPlace.traversal
    {visitor : Visitor σ γ}
    (walks : visitor.WalksInPlace) :
    visitor.traversal.WalksInPlace Tree.paddedChildren where
  accepts := walks.accepts
  acceptsSource := walks.acceptsSource
  before := walks.before
  handsOn := walks.handsOn
  dispatch := fun each => walks.dispatch <|
    descend_relates SameAt.isCompositional _ (fun _ _ => .refl (walks.space _ _))
      (fun _ => .refl (walks.marker _)) walks.visitContainer _ each

end Java

/-! ## Visitors of data trees -/

namespace Json

/-- The children of a node, each with the padding around it. -/
def Tree.paddedChildren (tree : Tree) : List (PaddedChild Tree PaddingFrame) :=
  tree.form.paddedChildren

/-- The hooks leave the frames alone, and the dispatch walks through its own node. -/
structure Visitor.WalksInPlace (visitor : Visitor σ γ) : Prop where
  space : forall space, (visitor.space space).Keeps SameFrames
  marker : forall marker, (visitor.marker marker).Keeps SameFrames
  accepts : forall tree, (visitor.accepts tree).Keeps SameFrames
  acceptsSource : forall tree, (visitor.acceptsSource tree).Keeps SameFrames
  before : forall tree, (visitor.before tree).Keeps SameFrames
  handsOn : forall {tree state first left}, visitor.before tree state = (.ok first, left) -> first = some tree
  dispatch : forall {frames tree descend other}, SameAt frames (descend tree) (other tree) ->
    SameAt frames (visitor.dispatch descend tree) (visitor.dispatch other tree)

theorem Visitor.WalksInPlace.traversal
    {visitor : Visitor σ γ}
    (walks : visitor.WalksInPlace) :
    visitor.traversal.WalksInPlace Tree.paddedChildren where
  accepts := walks.accepts
  acceptsSource := walks.acceptsSource
  before := walks.before
  handsOn := walks.handsOn
  dispatch := fun each => walks.dispatch <|
    descend_relates SameAt.isCompositional _ (fun _ => .refl (walks.space _))
      (fun _ => .refl (walks.marker _)) _ each

end Json

/-! ## Visitors that format -/

namespace Format

open Java

theorem sameFrames_isMessageRelation :
    IsMessageRelation (SameFrames (τ := Tree) (ω := PaddingFrame) (σ := Unit) (γ := Unit)) where
  toIsFrameRelation := sameFrames_isFrameRelation
  put := fun _ _ _ _ => Cursor.values_putMessageBelow ..

/-- A pass over spaces stays in place. -/
theorem ofSpaces_walksInPlace (change : SpacePlace -> Space -> Except Error Space) :
    Visitor.WalksInPlace (Pass.ofSpaces change) :=
  have isFrame := sameFrames_isFrameRelation
  have space (place : SpacePlace) (space : Space) : ((Pass.ofSpaces change).space place space).Keeps SameFrames :=
    unlessStopped_keeps isFrame (.ofExcept isFrame _)
  have marker (marker : Marker Space) : ((Pass.ofSpaces change).marker marker).Keeps SameFrames :=
    unlessStopped_keeps isFrame (.ofExcept isFrame _)
  { space := space
    marker := marker
    accepts := fun _ => .pure isFrame _
    acceptsSource := fun _ => .pure isFrame _
    before := fun _ => .pure isFrame _
    handsOn := fun handed => by cases handed; rfl
    visitContainer := GapVisitor.container_sameAt space marker
    dispatch := id }

/-- A pass over nodes stays in place. -/
theorem ofNodes_walksInPlace (change : TreeCursor -> Tree -> Tree) :
    Visitor.WalksInPlace (Pass.ofNodes change) where
  space := fun _ _ => .pure sameFrames_isFrameRelation _
  marker := fun _ => .pure sameFrames_isFrameRelation _
  accepts := fun _ => .pure sameFrames_isFrameRelation _
  acceptsSource := fun _ => .pure sameFrames_isFrameRelation _
  before := fun _ => .pure sameFrames_isFrameRelation _
  handsOn := fun handed => by cases handed; rfl
  visitContainer := GapVisitor.container_sameAt (fun _ _ => .pure sameFrames_isFrameRelation _)
    fun _ => .pure sameFrames_isFrameRelation _
  dispatch := id

namespace Indents

variable (style : IndentStyle)
variable {visit other : Tree -> PassVisit (Option Tree)}
variable {frames : List TreeFrame}

theorem visitElements_sameAt
    (place : ElementPlace)
    (columns : ListColumns)
    (isFirst : Bool)
    (target : Nat)
    (list : List (RightPadded Tree))
    (each : forall padded, padded ∈ list ->
      SameAt (.padding (.element place) :: frames) (visit padded.element) (other padded.element)) :
    SameAt frames (visitElements style visit place columns isFirst target list)
      (visitElements style other place columns isFirst target list) := by
  have isFrame := sameFrames_isFrameRelation (τ := Tree) (ω := PaddingFrame) (σ := Unit) (γ := Unit)
  induction list generalizing isFirst target with
  | nil => exact .refl (.pure isFrame _)
  | cons padded rest ih =>
      rw [List.forall_mem_cons] at each
      refine .bind (.within _ ?_) fun visited => ?_
      · exact .bind (.refl (putMessage_keeps sameFrames_isMessageRelation _ _)) fun _ => each.1
      · cases visited with
        | none => exact ih false target each.2
        | some element =>
            exact .bind (.refl (.get isFrame)) fun _ =>
              .bind (.refl (.ofExcept isFrame _)) fun _ =>
                .bind (.refl (unlessStopped_keeps isFrame (.ofExcept isFrame _))) fun _ =>
                  .bind (ih false _ each.2) fun _ => .refl (.pure isFrame _)

/-- The visit of a list that the indentation has visits the elements where the ordinary one does. -/
theorem visitList_sameAt
    (place : ContainerPlace)
    (list : Container Tree)
    (each : forall padded, padded ∈ place.paddedChildren list ->
      SameAt (padded.framesOn frames) (visit padded.child) (other padded.child)) :
    SameAt frames (visitList style visit place list) (visitList style other place list) := by
  have isFrame := sameFrames_isFrameRelation (τ := Tree) (ω := PaddingFrame) (σ := Unit) (γ := Unit)
  refine .bind (.refl (.get isFrame)) fun _ => .bind (.within _ ?_) fun _ => .refl (.pure isFrame _)
  refine .bind (.refl (visitSpace_keeps sameFrames_isMessageRelation style _ _)) fun _ =>
    .bind (.refl (.ofExcept isFrame _)) fun _ => .bind ?_ fun _ => .refl (.pure isFrame _)
  exact visitElements_sameAt style _ _ _ _ _ fun padded member => each _ (List.mem_map_of_mem member)

end Indents

/-- The indentation stays in place. -/
theorem tabsAndIndents_walksInPlace (style : IndentStyle) :
    Visitor.WalksInPlace (tabsAndIndents style) :=
  have keeps := tabsAndIndents_keeps sameFrames_isMessageRelation style
  { space := keeps.space
    marker := keeps.marker
    accepts := keeps.accepts
    acceptsSource := keeps.acceptsSource
    before := keeps.before
    handsOn := by
      intro tree state first left handed
      have outcome : (Indents.enterNode style tree state).1 = .ok (some tree) := by
        unfold Indents.enterNode
        split <;> rfl
      rw [show Indents.enterNode style tree state = (.ok first, left) from handed] at outcome
      exact Except.ok.inj outcome
    visitContainer := Indents.visitList_sameAt style
    dispatch := id }

/-- Every pass of a formatting run stays in place. -/
theorem passes_walkInPlace
    {styles : Styles}
    {pass : Pass}
    (member : pass ∈ passes styles) :
    Visitor.WalksInPlace pass := by
  simp only [passes, List.mem_append, List.mem_cons, List.not_mem_nil, or_false] at member
  rcases member with (rfl | rfl | rfl | rfl | rfl) | last
  · exact ofNodes_walksInPlace _
  · exact ofSpaces_walksInPlace _
  · exact ofNodes_walksInPlace _
  · exact tabsAndIndents_walksInPlace _
  · exact ofSpaces_walksInPlace _
  · split at last
    · cases last
    · obtain rfl := List.mem_singleton.1 last
      exact ofSpaces_walksInPlace _

/-- Every pass of a formatting run dispatches each node at the frames of its path. -/
theorem passes_mirrorPath
    {styles : Styles}
    {pass : Pass}
    (member : pass ∈ passes styles) :
    (Visitor.traversal pass).MirrorsPath Tree.paddedChildren :=
  (passes_walkInPlace member).traversal.mirrorsPath

end Format

/--
Whenever a node of a syntax tree or of a data tree is dispatched, the frames are its own, one for each padding and list
that was crossed, and those of the node around it, down to the ones at which the visit began. So in a visit from the
root the nodes on the stack are the node and those around it in the tree, and the closest stack below that ends in no
padding is the one of the node around, or the root alone.
-/
theorem frames_mirrorPath :
    (forall (σ γ : Type) (visitor : Java.Visitor σ γ), visitor.WalksInPlace ->
      visitor.traversal.MirrorsPath Java.Tree.paddedChildren) ∧
    (forall (σ γ : Type) (visitor : Json.Visitor σ γ), visitor.WalksInPlace ->
      visitor.traversal.MirrorsPath Json.Tree.paddedChildren) ∧
    (forall (root node : Java.Tree) (cursor : Java.TreeCursor),
      Mirrors Java.Tree.paddedChildren [.root] root node cursor.values ->
        exists around, cursor.StandsIn Java.Tree.children root node around) ∧
    forall (root node : Json.Tree) (cursor : Cursor (FrameValue Json.Tree Json.PaddingFrame)),
      Mirrors Json.Tree.paddedChildren [.root] root node cursor.values ->
        exists around, cursor.StandsIn Json.Tree.children root node around := by
  refine ⟨fun _ _ _ walks => walks.traversal.mirrorsPath, fun _ _ _ walks => walks.traversal.mirrorsPath,
    fun root node cursor mirrors => ?_, fun root node cursor mirrors => ?_⟩
  · obtain ⟨around, stands⟩ := mirrors.standsIn
    simp only [Java.Tree.paddedChildren, Java.Form.map_child_paddedChildren] at stands
    exact ⟨around, stands⟩
  · obtain ⟨around, stands⟩ := mirrors.standsIn
    simp only [Json.Tree.paddedChildren, Json.Form.map_child_paddedChildren] at stands
    exact ⟨around, stands⟩

/-- A visitor that notes the frames at every dispatch. -/
def Java.recorder : Java.Visitor Unit (List (List Java.TreeFrame)) where
  dispatch := fun descend tree => do
    modify fun state => { state with world := state.world ++ [state.cursor.values] }
    descend tree

/-- The same visitor, but one that fails where the stack does not go down to the root. -/
def Java.rootedRecorder : Java.Visitor Unit (List (List Java.TreeFrame)) where
  dispatch := fun descend tree state =>
    if state.cursor.values.getLast?.any FrameValue.isRoot then Java.recorder.dispatch descend tree state
    else (.error (.ofCause (.visitor [])), state)

theorem Java.recorder_walksInPlace : Java.recorder.WalksInPlace where
  space := fun _ _ => .pure sameFrames_isFrameRelation _
  marker := fun _ => .pure sameFrames_isFrameRelation _
  accepts := fun _ => .pure sameFrames_isFrameRelation _
  acceptsSource := fun _ => .pure sameFrames_isFrameRelation _
  before := fun _ => .pure sameFrames_isFrameRelation _
  handsOn := fun handed => by cases handed; rfl
  visitContainer := Java.GapVisitor.container_sameAt (fun _ _ => .pure sameFrames_isFrameRelation _)
    fun _ => .pure sameFrames_isFrameRelation _
  dispatch := fun same => .bind (.refl fun _ => rfl) fun _ => same

/-- The argument of a call stands in the list of arguments, the call in its unit, and the unit below the root. -/
theorem frames_mirrorPath_ofArgument :
    let argument := Java.Tree.identifier ['b']
    let call := Java.Tree.build (.call (some (.build (.identifier ['a']))) (.identifier ['f'])
      ⟨.empty, [.build argument], .empty⟩ none)
    let unit := Java.Tree.build (.compilationUnit .java { path := ⟨['A']⟩ } [.build call] .empty)
    let start : VisitState Java.Tree Java.PaddingFrame Unit _ := .start .root .never () []
    let frames : List Java.TreeFrame :=
      [.tree argument, .padding (.element .methodInvocationArgument),
        .padding (.container .methodInvocationArguments), .tree call,
        .padding (.element .compilationUnitStatement), .tree unit, .root]
    ((Java.recorder.run unit start).2.world[4]?.map fun frames => frames.map FrameValue.kindName) =
      some (frames.map FrameValue.kindName) ∧
    Java.rootedRecorder.run unit start = Java.recorder.run unit start ∧
    forall cursor : Java.TreeCursor, cursor.values = frames ->
      exists around, cursor.StandsIn Java.Tree.children unit argument around := by
  intro argument call unit start frames
  refine ⟨by decide +kernel, ?_, fun cursor values => frames_mirrorPath.2.2.1 _ _ cursor ?_⟩
  · refine frames_mirrorPath.1 _ _ _ Java.recorder_walksInPlace Java.rootedRecorder.traversal.dispatch 0 unit start ?_
    intro visit tree inner mirrors
    obtain ⟨above, values⟩ := mirrors.base_suffix
    refine if_pos ?_
    rw [<- values, List.getLast?_append]
    rfl
  · have atCall : Mirrors Java.Tree.paddedChildren [.root] unit call
        [.tree call, .padding (.element .compilationUnitStatement), .tree unit, .root] :=
      .child ⟨call, [Java.PaddingFrame.element .compilationUnitStatement]⟩ .top List.mem_cons_self
    have atArgument : Mirrors Java.Tree.paddedChildren [.root] unit argument frames :=
      .child ⟨argument, [Java.PaddingFrame.element .methodInvocationArgument,
        .container .methodInvocationArguments]⟩ atCall
        (List.mem_cons_of_mem _ (List.mem_cons_of_mem _ List.mem_cons_self))
    rwa [values]

end Lossless
