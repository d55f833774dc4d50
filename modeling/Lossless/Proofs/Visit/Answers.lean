import Lossless.Proofs.Visit.Steps

/-!
# Steps that give an answer and do nothing else

A step answers with a value when it gives that value and leaves the state as it was. When the hooks around
the dispatch of a node answer so, then the visit does with what the dispatch makes of the children.
-/

namespace Lossless

variable {τ ω σ γ α β : Type}

/-- The visit goes on to its end, and no visitor waits for it. -/
structure VisitState.IsQuiet (state : VisitState τ ω σ γ) : Prop where
  stop : state.stop = .never
  queue : state.queue = []

namespace VisitM

/-- The step gives an answer and does nothing to the state. -/
def Answers
    (step : VisitM τ ω σ γ α)
    (value : α) : Prop :=
  forall state, state.IsQuiet -> step state = (.ok value, state)

theorem Answers.pure (value : α) : Answers (pure value : VisitM τ ω σ γ α) value :=
  fun _ _ => rfl

theorem Answers.bind
    {step : VisitM τ ω σ γ α}
    {next : α -> VisitM τ ω σ γ β}
    {first : α}
    {last : β}
    (answers : step.Answers first)
    (others : (next first).Answers last) :
    (step >>= next).Answers last := by
  intro state isQuiet
  rw [bind_apply, answers state isQuiet]
  exact others state isQuiet

theorem Answers.within
    {step : VisitM τ ω σ γ α}
    {value : α}
    (answers : step.Answers value)
    (place : FrameValue τ ω) :
    (within place step).Answers value := by
  intro state isQuiet
  rw [within_apply, answers (state.entered place) ⟨isQuiet.stop, isQuiet.queue⟩]
  simp [VisitState.returned, VisitState.entered]

theorem Answers.attempt
    {step : VisitM τ ω σ γ α}
    {value : α}
    (answers : step.Answers value) :
    (attempt step).Answers (.ok value) := by
  intro state isQuiet
  simp only [VisitM.attempt, answers state isQuiet]

theorem Answers.mapM
    (step : α -> VisitM τ ω σ γ α)
    (answers : forall value, (step value).Answers value)
    (list : List α) :
    (list.mapM step).Answers list := by
  induction list with
  | nil => exact .pure _
  | cons first rest ih =>
      rw [List.mapM_cons]
      exact .bind (answers first) (.bind ih (.pure _))

theorem Answers.markers
    {visitMarker : Marker Space -> VisitM τ ω σ γ (Marker Space)}
    (answers : forall marker, (visitMarker marker).Answers marker)
    (markers : Markers Space) :
    (visitMarkersWith visitMarker markers).Answers markers := by
  unfold visitMarkersWith
  split
  · exact .pure _
  · refine .bind (.mapM visitMarker answers markers.toList) ?_
    rw [Markers.withMarkers_toList]
    exact .pure markers

end VisitM

/-- The step gives an answer and puts another state of its own in place of the visitor's. -/
def VisitM.Moves
    (own moved : σ)
    (step : VisitM τ ω σ γ α)
    (value : α) : Prop :=
  forall state, state.IsQuiet -> state.own = own -> step state = (.ok value, { state with own := moved })

namespace VisitM

variable {own middle moved : σ}

theorem Answers.moves
    {step : VisitM τ ω σ γ α}
    {value : α}
    (answers : step.Answers value)
    (own : σ) :
    Moves own own step value := by
  rintro state isQuiet rfl
  exact answers state isQuiet

theorem Moves.bind
    {step : VisitM τ ω σ γ α}
    {next : α -> VisitM τ ω σ γ β}
    {first : α}
    {last : β}
    (moves : Moves own middle step first)
    (others : Moves middle moved (next first) last) :
    Moves own moved (step >>= next) last := by
  intro state isQuiet atOwn
  rw [bind_apply, moves state isQuiet atOwn]
  exact others { state with own := middle } ⟨isQuiet.stop, isQuiet.queue⟩ rfl

theorem Moves.within
    {step : VisitM τ ω σ γ α}
    {value : α}
    (moves : Moves own moved step value)
    (place : FrameValue τ ω) :
    Moves own moved (within place step) value := by
  intro state isQuiet atOwn
  rw [within_apply, moves (state.entered place) ⟨isQuiet.stop, isQuiet.queue⟩ atOwn]
  simp [VisitState.returned, VisitState.entered]

theorem Moves.attempt
    {step : VisitM τ ω σ γ α}
    {value : α}
    (moves : Moves own moved step value) :
    Moves own moved (attempt step) (.ok value) := by
  intro state isQuiet atOwn
  simp only [VisitM.attempt, moves state isQuiet atOwn]

/-- The visits of some trees, one after another, change every tree and pass the visitor's own state on. -/
inductive Proceeds
    (visit : τ -> VisitM τ ω σ γ (Option τ))
    (change : τ -> τ) : σ -> List τ -> σ -> Prop
  | nil {own : σ} : Proceeds visit change own [] own
  | cons {own middle moved : σ} {first : τ} {rest : List τ} :
      Moves own middle (visit first) (some (change first)) -> Proceeds visit change middle rest moved ->
        Proceeds visit change own (first :: rest) moved

namespace Proceeds

variable {visit : τ -> VisitM τ ω σ γ (Option τ)} {change : τ -> τ}

theorem of_cons
    {first : τ}
    {rest : List τ}
    (proceeds : Proceeds visit change own (first :: rest) moved) :
    exists middle, Moves own middle (visit first) (some (change first)) ∧ Proceeds visit change middle rest moved := by
  cases proceeds with
  | cons here later => exact ⟨_, here, later⟩

theorem of_append
    {first rest : List τ}
    (proceeds : Proceeds visit change own (first ++ rest) moved) :
    exists middle, Proceeds visit change own first middle ∧ Proceeds visit change middle rest moved := by
  induction first generalizing own with
  | nil => exact ⟨own, .nil, proceeds⟩
  | cons tree others ih =>
      obtain ⟨middle, here, later⟩ := of_cons proceeds
      obtain ⟨last, before, behind⟩ := ih later
      exact ⟨last, .cons here before, behind⟩

theorem of_singleton
    {tree : τ}
    (proceeds : Proceeds visit change own [tree] moved) :
    Moves own moved (visit tree) (some (change tree)) := by
  obtain ⟨_, here, ⟨⟩⟩ := of_cons proceeds
  exact here

end Proceeds
end VisitM

open VisitM

/-- Only the dispatch of a traversal does anything. -/
structure Traversal.IsPlain (traversal : Traversal τ ω σ γ) : Prop where
  accepts : forall tree, (traversal.accepts tree).Answers true
  acceptsSource : forall tree, (traversal.acceptsSource tree).Answers true
  before : forall tree, (traversal.before tree).Answers (some tree)
  after : forall tree, (traversal.after tree).Answers (some tree)

namespace Traversal

variable [VisitNode τ] [Named ω]
variable {traversal : Traversal τ ω σ γ} (isPlain : traversal.IsPlain)

include isPlain

omit isPlain in
/-- A wanted node is visited by the hook before it and by what comes after that hook; it may be deleted. -/
theorem enter_moves_inside
    {own opened moved : σ}
    {drain : List (QueuedVisitor σ) -> τ -> VisitM τ ω σ γ (Option τ)}
    (drains : forall tree, (drain [] tree).Answers (some tree))
    {visitChild : τ -> VisitM τ ω σ γ (Option τ)}
    {tree : τ}
    {first last : Option τ}
    (wanted : (traversal.wants tree).Answers true)
    (before : (traversal.before tree).Moves own opened first)
    (visitsInside : (traversal.visitInside visitChild first).Moves opened moved last) :
    (traversal.enter drain visitChild tree).Moves own moved last := by
  intro state isQuiet atOwn
  have inside : (state.inside tree).IsQuiet := ⟨isQuiet.stop, isQuiet.queue⟩
  have accepted : traversal.visitAccepted visitChild tree (state.inside tree) =
      (.ok last, { state.inside tree with own := moved }) := by
    have notSkipped : ({ state.inside tree with own := opened } : VisitState τ ω σ γ).cursor.message?
        Message.truth? skipChildrenKey ≠ some true := nofun
    rw [visitAccepted_of_ok (before _ inside atOwn) notSkipped
      (visitsInside { state.inside tree with own := opened } ⟨isQuiet.stop, isQuiet.queue⟩ rfl)]
    dsimp only
    rw [inside.stop]
    rfl
  have located : locating (traversal.visitIfAccepted visitChild tree) (state.inside tree) =
      (.ok last, { state.inside tree with own := moved }) := by
    rw [locating, visitIfAccepted, bind_apply, wanted _ inside]
    dsimp only
    rw [if_pos rfl, accepted]
  have restored : state.returned { state.inside tree with own := moved } =
      { state with depth := state.depth + 1, own := moved } := by
    simp [VisitState.returned, VisitState.inside, VisitState.entered]
  have goesOn : state.stop.isStopped = false := by
    rw [isQuiet.stop]
    rfl
  by_cases outermost : state.depth = 0
  · rw [enter_of_outermost goesOn outermost located, restored]
    have emptied : { state with depth := 0, queue := [], own := moved } = { state with own := moved } := by
      obtain ⟨cursor, depth, queue, stop, own, world⟩ := state
      obtain rfl : depth = 0 := outermost
      obtain rfl : queue = [] := isQuiet.queue
      rfl
    have noQueue : ({ state.inside tree with own := moved } : VisitState τ ω σ γ).queue = [] := isQuiet.queue
    dsimp only
    cases last with
    | none => rw [emptied]
    | some result =>
        rw [noQueue, emptied]
        exact drains result { state with own := moved } ⟨isQuiet.stop, isQuiet.queue⟩
  · rw [enter_of_nested goesOn outermost located, restored]
    rfl

omit isPlain in
/-- A wanted node is visited by the hook before it, its dispatch and the hook after it. -/
theorem enter_moves_of
    {own opened descended moved : σ}
    {drain : List (QueuedVisitor σ) -> τ -> VisitM τ ω σ γ (Option τ)}
    (drains : forall tree, (drain [] tree).Answers (some tree))
    {visitChild : τ -> VisitM τ ω σ γ (Option τ)}
    {tree middle result : τ}
    (wanted : (traversal.wants tree).Answers true)
    (before : (traversal.before tree).Moves own opened (some tree))
    (dispatches : (traversal.dispatch visitChild tree).Moves opened descended (some middle))
    (after : (traversal.after middle).Moves descended moved (some result)) :
    (traversal.enter drain visitChild tree).Moves own moved (some result) :=
  enter_moves_inside drains wanted before (.bind dispatches after)

omit isPlain [Named ω] in
/-- A node is wanted when neither test speaks against it. -/
theorem wants_answers
    (accepts : forall tree, (traversal.accepts tree).Answers true)
    (acceptsSource : forall tree, (traversal.acceptsSource tree).Answers true)
    (tree : τ) :
    (traversal.wants tree).Answers true := by
  refine .bind (accepts tree) ?_
  rw [if_pos rfl]
  split
  · exact acceptsSource tree
  · exact .pure _

/-- When only the dispatch does anything, a node is visited by its dispatch. -/
theorem enter_moves
    {own moved : σ}
    {drain : List (QueuedVisitor σ) -> τ -> VisitM τ ω σ γ (Option τ)}
    (drains : forall tree, (drain [] tree).Answers (some tree))
    {visitChild : τ -> VisitM τ ω σ γ (Option τ)}
    {tree result : τ}
    (dispatches : (traversal.dispatch visitChild tree).Moves own moved (some result)) :
    (traversal.enter drain visitChild tree).Moves own moved (some result) :=
  enter_moves_of drains (wants_answers isPlain.accepts isPlain.acceptsSource tree) ((isPlain.before tree).moves own) dispatches
    ((isPlain.after result).moves moved)

omit isPlain in
theorem drainWithin_answers
    (generations : Nat)
    (tree : τ) :
    (traversal.drainWithin generations [] tree).Answers (some tree) := by
  cases generations <;> exact .pure _

omit isPlain in
/-- A move that every node makes when it is made of the children is made by the visit. -/
theorem visit_moves_of
    (answer : σ -> τ -> Option τ)
    (move : σ -> τ -> σ)
    (children : τ -> List τ)
    (height : τ -> Nat)
    (lower : forall tree child, child ∈ children tree -> height child < height tree)
    (deepEnough : forall own tree, height tree ≤ traversal.depthBound own tree)
    (admits : τ -> Prop)
    (inherits : forall tree child, admits tree -> child ∈ children tree -> admits child)
    (enters : forall generations visitChild tree, admits tree ->
      (forall child, child ∈ children tree -> forall own,
        (visitChild child).Moves own (move own child) (answer own child)) ->
      forall own, (traversal.enter (traversal.drainWithin generations) visitChild tree).Moves own (move own tree)
        (answer own tree))
    (tree : τ)
    (admitted : admits tree)
    (own : σ) :
    (traversal.visit tree).Moves own (move own tree) (answer own tree) := by
  suffices within : forall generations depth tree, admits tree -> height tree < depth -> forall own,
      (traversal.visitWithin (traversal.drainWithin generations) depth tree).Moves own (move own tree)
        (answer own tree) from
    fun state => within _ _ tree admitted (Nat.lt_succ_of_le (deepEnough state.own tree)) own state
  intro generations depth
  induction depth with
  | zero => exact fun _ _ low => absurd low (Nat.not_lt_zero _)
  | succ depth ih =>
      intro tree admitted low own
      refine enters generations _ tree admitted (fun child member => ?_) own
      exact ih child (inherits tree child admitted member)
        (Nat.lt_of_lt_of_le (lower tree child member) (Nat.le_of_lt_succ low))

omit isPlain in
/-- An answer that every node gets when the children get theirs is given by the visit. -/
theorem visit_answers_of
    (answer : τ -> Option τ)
    (children : τ -> List τ)
    (height : τ -> Nat)
    (lower : forall tree child, child ∈ children tree -> height child < height tree)
    (deepEnough : forall own tree, height tree ≤ traversal.depthBound own tree)
    (enters : forall generations visitChild tree,
      (forall child, child ∈ children tree -> (visitChild child).Answers (answer child)) -> forall own,
        (traversal.enter (traversal.drainWithin generations) visitChild tree).Moves own own (answer tree))
    (tree : τ) :
    (traversal.visit tree).Answers (answer tree) := by
  intro state isQuiet
  have stays : (traversal.visit tree).Moves state.own state.own (answer tree) := visit_moves_of (fun _ => answer)
    (fun own _ => own) children height lower deepEnough (fun _ => True) (fun _ _ _ _ => trivial)
    (fun generations visitChild tree _ below => enters generations visitChild tree fun child member state isQuiet =>
      below child member state.own state isQuiet rfl) tree trivial state.own
  exact stays state isQuiet rfl

/-- A move that every dispatch makes when it is made of the children is made by the visit. -/
theorem IsPlain.visit_moves
    (change : σ -> τ -> τ)
    (move : σ -> τ -> σ)
    (children : τ -> List τ)
    (height : τ -> Nat)
    (lower : forall tree child, child ∈ children tree -> height child < height tree)
    (deepEnough : forall own tree, height tree ≤ traversal.depthBound own tree)
    (admits : τ -> Prop)
    (inherits : forall tree child, admits tree -> child ∈ children tree -> admits child)
    (dispatches : forall visitChild tree, admits tree ->
      (forall child, child ∈ children tree -> forall own,
        (visitChild child).Moves own (move own child) (some (change own child))) ->
      forall own, (traversal.dispatch visitChild tree).Moves own (move own tree) (some (change own tree)))
    (tree : τ)
    (admitted : admits tree)
    (own : σ) :
    (traversal.visit tree).Moves own (move own tree) (some (change own tree)) :=
  visit_moves_of (fun own tree => some (change own tree)) move children height lower deepEnough admits inherits
    (fun generations visitChild tree admitted below own =>
      enter_moves isPlain (drainWithin_answers generations) (dispatches visitChild tree admitted below own))
    tree admitted own

/-- A change that every dispatch makes when it is made of the children is made by the visit. -/
theorem IsPlain.visit_answers
    (change : τ -> τ)
    (children : τ -> List τ)
    (height : τ -> Nat)
    (lower : forall tree child, child ∈ children tree -> height child < height tree)
    (deepEnough : forall own tree, height tree ≤ traversal.depthBound own tree)
    (dispatches : forall visitChild tree,
      (forall child, child ∈ children tree -> (visitChild child).Answers (some (change child))) ->
        (traversal.dispatch visitChild tree).Answers (some (change tree)))
    (tree : τ) :
    (traversal.visit tree).Answers (some (change tree)) :=
  visit_answers_of (fun tree => some (change tree)) children height lower deepEnough
    (fun generations visitChild tree below own =>
      enter_moves isPlain (drainWithin_answers generations) ((dispatches visitChild tree below).moves own))
    tree

end Traversal

/-! ## Padded parts -/

section Parts

variable (change : α -> α)

theorem RightPadded.map_eq_self_iff
    (padded : RightPadded α) :
    padded.map change = padded ↔ change padded.element = padded.element := by
  obtain ⟨element, after, markers⟩ := padded
  simp [map]

theorem RightPadded.mapList_eq_self_iff
    (list : List (RightPadded α)) :
    list.map (·.map change) = list ↔ forall element, element ∈ elements list -> change element = element := by
  induction list with
  | nil => simp [elements]
  | cons first rest ih => simp [elements, map_eq_self_iff] at ih ⊢; rw [ih]; simp

theorem LeftPadded.map_eq_self_iff
    (padded : LeftPadded α) :
    padded.map change = padded ↔ change padded.element = padded.element := by
  obtain ⟨before, element, markers⟩ := padded
  simp [map]

theorem Container.map_eq_self_iff
    (list : Container α) :
    list.map change = list ↔ forall element, element ∈ list.elements -> change element = element := by
  obtain ⟨before, padded, markers⟩ := list
  simp [map, elements, RightPadded.mapList_eq_self_iff]

end Parts

end Lossless
