import Lossless.Java.Language
import Lossless.Json.Language
import Lossless.Proofs.Visit.Turns

/-!
# Queued visitors

What holds of the queue of every honest visitor: a visit inside another one only puts visitors into it, and a
visit from the outside is a run, in which the visitors that the outermost visit hands over take their turns.
Nothing of the queue is left for a later run. Visitors made of rules are honest.
-/

namespace Lossless

variable {τ ω σ γ : Type}

open VisitM VisitState
open Java (GapVisitor)

namespace Traversal

variable [VisitNode τ] [Named ω]

/-- The visitors that wait when an outermost visit is over; a visit that gives no tree leaves none. -/
def handsOver
    (traversal : Traversal τ ω σ γ)
    (tree : τ)
    (state : VisitState τ ω σ γ) : List (QueuedVisitor σ) :=
  match traversal.visitAlone tree state with
  | (.ok (some _), left) => left.queue
  | _ => []

variable {traversal : Traversal τ ω σ γ}

/-- The visitors that an outermost visit hands over take turns in their order, each at most once. -/
theorem IsRun.visitors_isPrefix
    {state last : VisitState τ ω σ γ}
    {tree : τ}
    {outcome : Except Error (Option τ)}
    {turns : List (Turn σ)}
    (isRun : traversal.IsRun state tree outcome last turns) :
    turns.map Turn.visitor <+: traversal.handsOver tree state := by
  cases isRun with
  | stopped => exact List.nil_prefix
  | fails => exact List.nil_prefix
  | deletes => exact List.nil_prefix
  | yields _ alone takes =>
      rw [handsOver, alone]
      exact takes.visitors_isPrefix

/-- Every visitor that is handed over takes its turn when there is a tree in the end. -/
theorem IsRun.visitors_eq
    {state last : VisitState τ ω σ γ}
    {tree result : τ}
    {turns : List (Turn σ)}
    (isRun : traversal.IsRun state tree (.ok (some result)) last turns)
    (goesOn : state.stop.isStopped = false) :
    turns.map Turn.visitor = traversal.handsOver tree state := by
  cases isRun with
  | stopped stopped =>
      rw [stopped] at goesOn
      cases goesOn
  | yields _ alone takes =>
      rw [handsOver, alone]
      exact takes.visitors_eq

/-- A run leaves no visitor in the queue. -/
theorem IsRun.queue_eq
    {state last : VisitState τ ω σ γ}
    {tree : τ}
    {outcome : Except Error (Option τ)}
    {turns : List (Turn σ)}
    (isRun : traversal.IsRun state tree outcome last turns)
    (isEmpty : state.queue = []) :
    last.queue = [] := by
  cases isRun with
  | stopped => exact isEmpty
  | fails => rfl
  | deletes => rfl
  | yields _ _ takes => exact takes.queue_eq

variable (traversal) in
/-- What holds of the visitors that are queued in a visit. -/
structure IsOrderly : Prop where
  /-- Inside a visit it makes no difference how queued visitors run: none does. -/
  waits : forall drain other depth tree (state : VisitState τ ω σ γ), state.depth ≠ 0 ->
    traversal.visitWithin drain depth tree state = traversal.visitWithin other depth tree state
  /-- Inside a visit no visitor leaves the queue or gets in front of another. -/
  queues : forall drain depth tree (state : VisitState τ ω σ γ), state.depth ≠ 0 ->
    state.queue <+: (traversal.visitWithin drain depth tree state).2.queue
  /-- From the outside, the outermost visit comes first and then the turns, in the order of the queue. -/
  runs : forall tree (state : VisitState τ ω σ γ), state.depth = 0 -> state.queue = [] ->
    exists turns, traversal.IsRun state tree (traversal.visit tree state).1 (traversal.visit tree state).2 turns ∧
      turns.map Turn.visitor <+: traversal.handsOver tree state ∧
      forall result, state.stop.isStopped = false -> (traversal.visit tree state).1 = .ok (some result) ->
        turns.map Turn.visitor = traversal.handsOver tree state
  /-- A later run starts with an empty queue again. -/
  empties : forall tree (state : VisitState τ ω σ γ), state.depth = 0 -> state.queue = [] ->
    (traversal.visit tree state).2.depth = 0 ∧ (traversal.visit tree state).2.queue = []

theorem isOrderly
    (keeps : traversal.Keeps (OnlyQueues traversal.generations))
    (isLocal : traversal.IsLocal) :
    traversal.IsOrderly := by
  have isVisit := onlyQueues_isVisitRelation (τ := τ) (ω := ω) (γ := γ) traversal.generations
  have waits (drain other depth tree) (state : VisitState τ ω σ γ) (nested : state.depth ≠ 0) :
      traversal.visitWithin drain depth tree state = traversal.visitWithin other depth tree state :=
    (visitWithin_sameInside isLocal drain other depth tree).same state nested
  have runs (tree) (state : VisitState τ ω σ γ) (outermost : state.depth = 0) (isEmpty : state.queue = []) :
      exists turns, traversal.IsRun state tree (traversal.visit tree state).1 (traversal.visit tree state).2 turns := by
    apply visitBounded_isRun keeps isLocal _ tree state (Nat.le_refl _) outermost
    intro visitor member
    rw [isEmpty] at member
    cases member
  refine ⟨waits, ?_, ?_, ?_⟩
  · intro drain depth tree state nested
    rw [waits drain (traversal.drainWithin 0) depth tree state nested]
    have kept := visitWithin_keeps isVisit keeps (drainWithin_keeps isVisit keeps 0) depth tree state
    obtain ⟨added, grown, _⟩ := kept.queue nested
    rw [grown]
    exact List.prefix_append _ _
  · intro tree state outermost isEmpty
    obtain ⟨turns, isRun⟩ := runs tree state outermost isEmpty
    refine ⟨turns, isRun, isRun.visitors_isPrefix, ?_⟩
    intro result goesOn yields
    rw [yields] at isRun
    exact isRun.visitors_eq goesOn
  · intro tree state outermost isEmpty
    obtain ⟨turns, isRun⟩ := runs tree state outermost isEmpty
    have kept : OnlyQueues _ state (traversal.visit tree state).2 := visit_keeps isVisit keeps tree state
    exact ⟨kept.depth.trans outermost, isRun.queue_eq isEmpty⟩

end Traversal

/-! ## Rules -/

namespace Rule

/-- How many generations of visitors can come from rules with their counts. -/
def setGenerations (rules : RuleSet τ) : Nat :=
  listGenerations (rules.map Prod.fst)

/-- Trying rules changes nothing but their counts. -/
theorem tryInOrder_rules
    (hook : Hook)
    (kind name : Text)
    (rules : RuleSet τ) :
    (tryInOrder hook kind name rules).2.map Prod.fst = rules.map Prod.fst := by
  induction rules with
  | nil => rfl
  | cons first rest ih =>
      simp only [tryInOrder]
      split
      · split
        · rfl
        · exact congrArg (first.1 :: ·) ih
      · exact congrArg (first.1 :: ·) ih

theorem generations_le_of_fired
    {hook : Hook}
    {kind name : Text}
    {rules : RuleSet τ}
    {rule : Rule τ}
    (fired : (tryInOrder hook kind name rules).1 = some rule) :
    rule.generations ≤ setGenerations rules := by
  induction rules with
  | nil => cases fired
  | cons first rest ih =>
      have first_le : first.1.generations ≤ setGenerations (first :: rest) := Nat.le_max_left _ _
      have rest_le : setGenerations rest ≤ setGenerations (first :: rest) := Nat.le_max_right _ _
      simp only [tryInOrder] at fired
      split at fired
      · split at fired
        · cases fired
          exact first_le
        · exact Nat.le_trans (ih fired) rest_le
      · exact Nat.le_trans (ih fired) rest_le

theorem setGenerations_fresh (rules : List (Rule τ)) :
    setGenerations (fresh rules) = listGenerations rules := by
  rw [setGenerations, fresh, List.map_map]
  exact congrArg listGenerations (List.map_id rules)

end Rule

namespace RuleVisit

variable {α : Type}

/-- Relates states of visitors made of rules. -/
abbrev Bounds (state left : VisitState τ ω (RuleSet τ) EventLog) : Prop :=
  OnlyQueues Rule.setGenerations state left

theorem bounds_isFrameRelation :
    StateRelation.IsFrameRelation (τ := τ) (ω := ω) Bounds :=
  (onlyQueues_isVisitRelation Rule.setGenerations).toIsFrameRelation

theorem record_keeps (event : Event) :
    (record event : RuleVisit τ ω Unit).Keeps Bounds := by
  intro state
  change Bounds state (if _ then _ else state)
  split
  · exact { bounds_isFrameRelation.refl state with }
  · exact bounds_isFrameRelation.refl state

/-- What follows the trial of rules may count on the rule that fires to be one of the visitor's. -/
theorem fire?_bind_keeps
    {next : Option (Rule τ) -> RuleVisit τ ω α}
    {hook : Hook}
    {kind name : Text}
    (follows : forall fired state, (forall rule, fired = some rule ->
      rule.generations ≤ Rule.setGenerations state.own) -> Bounds state (next fired state).2) :
    (fire? hook kind name >>= next).Keeps Bounds := by
  intro state
  have same := Rule.tryInOrder_rules hook kind name state.own
  have sameGenerations : Rule.setGenerations (Rule.tryInOrder hook kind name state.own).2 =
      Rule.setGenerations state.own := congrArg Rule.listGenerations same
  have counted : Bounds state { state with own := (Rule.tryInOrder hook kind name state.own).2 } :=
    { bounds_isFrameRelation.refl state with own := fun _ => Nat.le_of_eq sameGenerations }
  apply counted.trans
  apply follows
  intro rule fired
  exact Nat.le_trans (Rule.generations_le_of_fired fired) (Nat.le_of_eq sameGenerations.symm)

/-- A hook that looks for a rule but queues nothing. -/
theorem fire?_bind_keeps_of_keeps
    {next : Option (Rule τ) -> RuleVisit τ ω α}
    {hook : Hook}
    {kind name : Text}
    (follows : forall fired, (next fired).Keeps Bounds) :
    (fire? hook kind name >>= next).Keeps Bounds :=
  fire?_bind_keeps fun fired state _ => follows fired state

variable [RuleNode τ]

/-- An action queues no more than its rule admits. -/
theorem perform_bounds
    {rule : Rule τ}
    {state : VisitState τ ω (RuleSet τ) EventLog}
    (bounded : rule.generations ≤ Rule.setGenerations state.own)
    (tree : τ) :
    Bounds state (perform rule tree state).2 := by
  have stays := bounds_isFrameRelation.refl state
  obtain ⟨hook, kind, name, occurrence, argument, descends, action⟩ := rule
  cases action with
  | queueRules rules =>
      refine { stays with queue := fun _ => ⟨[{ own := Rule.fresh rules }], rfl, ?_⟩ }
      intro visitor member
      obtain rfl := List.mem_singleton.1 member
      rw [Rule.setGenerations_fresh]
      exact ⟨Nat.lt_of_succ_le bounded, .mk nofun nofun⟩
  | skipChildren => exact { stays with }
  | _ => exact stays

theorem perform_sameDepth
    (rule : Rule τ)
    (tree : τ) :
    (perform rule tree : RuleVisit τ ω (Option τ)).Keeps SameDepth := by
  intro state
  obtain ⟨hook, kind, name, occurrence, argument, descends, action⟩ := rule
  cases action <;> rfl

theorem tryAtNode_keeps
    (hook : Hook)
    (tree : τ) :
    (tryAtNode hook tree : RuleVisit τ ω (Option τ)).Keeps Bounds := by
  apply fire?_bind_keeps
  intro fired state bounded
  cases fired with
  | none => exact bounds_isFrameRelation.refl state
  | some rule => exact perform_bounds (bounded rule rfl) tree

theorem before_keeps (tree : τ) : (before tree : RuleVisit τ ω (Option τ)).Keeps Bounds :=
  .bind bounds_isFrameRelation (record_keeps _) fun _ => tryAtNode_keeps .before tree

theorem after_keeps (tree : τ) : (after tree : RuleVisit τ ω (Option τ)).Keeps Bounds :=
  .bind bounds_isFrameRelation (record_keeps _) fun _ => tryAtNode_keeps .after tree

theorem accepts_keeps (tree : τ) : (accepts tree : RuleVisit τ ω Bool).Keeps Bounds :=
  fire?_bind_keeps_of_keeps fun _ => .pure bounds_isFrameRelation _

theorem acceptsSource_keeps (tree : τ) : (acceptsSource tree : RuleVisit τ ω Bool).Keeps Bounds := by
  unfold acceptsSource
  split
  · exact .pure bounds_isFrameRelation _
  · exact .bind bounds_isFrameRelation (record_keeps _) fun _ =>
      fire?_bind_keeps_of_keeps fun _ => .pure bounds_isFrameRelation _

omit [RuleNode τ] in
theorem space_keeps
    (place : Text)
    (gap : Space) :
    (space place gap : RuleVisit τ ω Space).Keeps Bounds := by
  apply Keeps.bind bounds_isFrameRelation (record_keeps _)
  intro _
  apply fire?_bind_keeps_of_keeps
  intro fired
  cases fired with
  | none => exact .pure bounds_isFrameRelation _
  | some rule =>
      dsimp only
      split
      · exact .throw bounds_isFrameRelation _
      · exact .pure bounds_isFrameRelation _

omit [RuleNode τ] in
theorem marker_keeps (mark : Marker Space) :
    (marker mark : RuleVisit τ ω (Marker Space)).Keeps Bounds := by
  apply Keeps.bind bounds_isFrameRelation (record_keeps _)
  intro _
  apply fire?_bind_keeps_of_keeps
  intro fired
  cases fired with
  | none => exact .pure bounds_isFrameRelation _
  | some rule =>
      dsimp only
      split
      · exact .throw bounds_isFrameRelation _
      · exact .pure bounds_isFrameRelation _
      · exact .pure bounds_isFrameRelation _

variable [Named ω]

theorem dispatch_keeps
    {descend : τ -> RuleVisit τ ω (Option τ)}
    (children : forall tree, (descend tree).Keeps Bounds)
    (tree : τ) :
    (dispatch descend tree).Keeps Bounds := by
  apply Keeps.bind bounds_isFrameRelation (.get bounds_isFrameRelation)
  intro state
  apply Keeps.bind bounds_isFrameRelation (record_keeps _)
  intro _
  apply fire?_bind_keeps
  intro fired state bounded
  cases fired with
  | none => exact children tree state
  | some rule =>
      have performed := perform_bounds (bounded rule rfl) tree
      dsimp only
      rw [bind_apply]
      rcases outcome : perform rule tree state with ⟨_ | (_ | node), left⟩
      all_goals rw [outcome] at performed
      · exact performed
      · exact performed
      · apply performed.trans
        dsimp only
        split
        · exact children node left
        · exact bounds_isFrameRelation.refl left

/-- The dispatch of a rule is the same inside a visit when the walk through a node is. -/
theorem dispatch_sameInside
    {descend other : τ -> RuleVisit τ ω (Option τ)}
    (children : forall tree, SameInside (descend tree) (other tree))
    (tree : τ) :
    SameInside (dispatch descend tree) (dispatch other tree) := by
  have tried : (fire? .visit (Named.kindName tree) (RuleNode.text tree) :
      RuleVisit τ ω (Option (Rule τ))).Keeps SameDepth := fun _ => rfl
  apply SameInside.bind (.refl (.get sameDepth_isVisitRelation.toIsFrameRelation))
  intro state
  apply SameInside.bind (.refl fun state => (record_keeps _ state).depth)
  intro _
  apply SameInside.bind (.refl tried)
  intro fired
  cases fired with
  | none => exact children tree
  | some rule =>
      apply SameInside.bind (.refl (perform_sameDepth rule tree))
      intro node
      cases node with
      | none => exact .pure none
      | some node =>
          dsimp only
          split
          · exact children node
          · exact .pure (some node)

end RuleVisit

/-- Visitors made of rules are honest. -/
theorem Java.ruleVisitor_isHonest : Java.ruleVisitor.IsHonest := by
  have keeps : Java.ruleVisitor.Keeps (OnlyQueues Java.ruleVisitor.generations) := {
    space := fun _ => RuleVisit.space_keeps _
    marker := RuleVisit.marker_keeps
    accepts := RuleVisit.accepts_keeps
    acceptsSource := RuleVisit.acceptsSource_keeps
    before := RuleVisit.before_keeps
    after := RuleVisit.after_keeps
    visitContainer := fun _ children _ list =>
      GapVisitor.container_has (keepsProperty_isCompositional RuleVisit.bounds_isFrameRelation) children
        (fun _ => RuleVisit.space_keeps _) RuleVisit.marker_keeps _ list
    dispatch := fun _ => RuleVisit.dispatch_keeps }
  have depths {α : Type} {step : Java.TreeVisit (RuleSet Java.Tree) EventLog α}
      (kept : step.Keeps RuleVisit.Bounds) : step.Keeps SameDepth := fun state => (kept state).depth
  refine ⟨keeps, ?_⟩
  exact {
    space := fun place space => depths (keeps.space place space)
    marker := fun marker => depths (keeps.marker marker)
    accepts := fun tree => depths (keeps.accepts tree)
    acceptsSource := fun tree => depths (keeps.acceptsSource tree)
    before := fun tree => depths (keeps.before tree)
    after := fun tree => depths (keeps.after tree)
    visitContainer := fun _ _ children _ list =>
      GapVisitor.container_sameInside children (fun place space => depths (keeps.space place space))
        (fun marker => depths (keeps.marker marker)) _ list
    dispatch := fun _ _ => RuleVisit.dispatch_sameInside }

/-- Visitors made of rules are honest. -/
theorem Json.ruleVisitor_isHonest : Json.ruleVisitor.IsHonest := by
  have keeps : Json.ruleVisitor.Keeps (OnlyQueues Json.ruleVisitor.generations) := {
    space := RuleVisit.space_keeps _
    marker := RuleVisit.marker_keeps
    accepts := RuleVisit.accepts_keeps
    acceptsSource := RuleVisit.acceptsSource_keeps
    before := RuleVisit.before_keeps
    after := RuleVisit.after_keeps
    dispatch := fun _ => RuleVisit.dispatch_keeps }
  have depths {α : Type} {step : Json.TreeVisit (RuleSet Json.Tree) EventLog α}
      (kept : step.Keeps RuleVisit.Bounds) : step.Keeps SameDepth := fun state => (kept state).depth
  refine ⟨keeps, ?_⟩
  exact {
    space := fun space => depths (keeps.space space)
    marker := fun marker => depths (keeps.marker marker)
    accepts := fun tree => depths (keeps.accepts tree)
    acceptsSource := fun tree => depths (keeps.acceptsSource tree)
    before := fun tree => depths (keeps.before tree)
    after := fun tree => depths (keeps.after tree)
    dispatch := fun _ _ => RuleVisit.dispatch_sameInside }

/-- Queued visitors run after the outermost visit, in the order of the queue, and once; those made of rules too. -/
theorem afterVisits_isOrderly :
    (forall visitor : Java.Visitor σ γ, visitor.IsHonest -> visitor.traversal.IsOrderly) ∧
      (forall visitor : Json.Visitor σ γ, visitor.IsHonest -> visitor.traversal.IsOrderly) ∧
      Java.ruleVisitor.traversal.IsOrderly ∧ Json.ruleVisitor.traversal.IsOrderly := by
  have java {σ γ : Type} (visitor : Java.Visitor σ γ) (isHonest : visitor.IsHonest) :
      visitor.traversal.IsOrderly := by
    have isVisit := onlyQueues_isVisitRelation (τ := Java.Tree) (ω := Java.PaddingFrame) (γ := γ)
      visitor.generations
    exact Traversal.isOrderly (Java.Visitor.traversal_keeps isVisit.toIsFrameRelation isHonest.keeps)
      (Java.Visitor.traversal_isLocal isHonest.isLocal)
  have json {σ γ : Type} (visitor : Json.Visitor σ γ) (isHonest : visitor.IsHonest) :
      visitor.traversal.IsOrderly := by
    have isVisit := onlyQueues_isVisitRelation (τ := Json.Tree) (ω := Json.PaddingFrame) (γ := γ)
      visitor.generations
    exact Traversal.isOrderly (Json.Visitor.traversal_keeps isVisit.toIsFrameRelation isHonest.keeps)
      (Json.Visitor.traversal_isLocal isHonest.isLocal)
  exact ⟨java, json, java _ Java.ruleVisitor_isHonest, json _ Json.ruleVisitor_isHonest⟩

/-- A visitor that puts the renaming off a number of times, at every node. -/
def Java.procrastinator : Java.Visitor Nat Unit where
  before := fun tree => do
    match (<- get).own with
    | 0 => return some (tree.rename ['y'])
    | delays + 1 =>
        VisitM.queueAfter { own := delays }
        return some tree
  generations := id

theorem Java.procrastinator_isHonest : Java.procrastinator.IsHonest := by
  have isFrame := (onlyQueues_isVisitRelation (τ := Java.Tree) (ω := Java.PaddingFrame) (γ := Unit)
    id).toIsFrameRelation
  have before (tree : Java.Tree) : (Java.procrastinator.before tree).Keeps (OnlyQueues id) := by
    rintro ⟨cursor, depth, queue, stop, own, world⟩
    cases own with
    | zero => exact isFrame.refl _
    | succ delays =>
        refine { isFrame.refl _ with queue := fun _ => ⟨[{ own := delays }], rfl, ?_⟩ }
        intro visitor member
        obtain rfl := List.mem_singleton.1 member
        exact ⟨Nat.lt_succ_self _, .mk nofun nofun⟩
  have spaces (place : Java.SpacePlace) (space : Space) :
      (Java.procrastinator.space place space).Keeps SameDepth := fun _ => rfl
  have markers (marker : Marker Space) : (Java.procrastinator.marker marker).Keeps SameDepth := fun _ => rfl
  constructor
  · exact {
      space := fun _ _ => .pure isFrame _
      marker := fun _ => .pure isFrame _
      accepts := fun _ => .pure isFrame _
      acceptsSource := fun _ => .pure isFrame _
      before := before
      after := fun _ => .pure isFrame _
      visitContainer := fun _ children _ list =>
        GapVisitor.container_has (keepsProperty_isCompositional isFrame) children
          (fun _ _ => .pure isFrame _) (fun _ => .pure isFrame _) _ list
      dispatch := fun _ children => children }
  · exact {
      space := spaces
      marker := markers
      accepts := fun _ _ => rfl
      acceptsSource := fun _ _ => rfl
      before := fun tree state => (before tree state).depth
      after := fun _ _ => rfl
      visitContainer := fun _ _ children _ list =>
        GapVisitor.container_sameInside children spaces markers _ list
      dispatch := fun _ _ children => children }

/-- Both nodes of a statement queue a visitor, and each of them queues two in its own turn. -/
theorem Java.procrastinator_takesTurns :
    let start : VisitState Java.Tree Java.PaddingFrame _ _ := .start .root .never 2 ()
    let tree (name : Text) : Java.Tree := .build (.returns (some (.build (.identifier name none))))
    exists left turns,
      Java.procrastinator.traversal.IsRun start (tree ['x']) (.ok (some (tree ['y']))) left turns ∧
        turns.map Turn.visitor = [{ own := 1 }, { own := 1 }] := by
  intro start tree
  have isOrderly := afterVisits_isOrderly.1 Java.procrastinator Java.procrastinator_isHonest
  obtain ⟨turns, isRun, -, all⟩ := isOrderly.runs (tree ['x']) start rfl rfl
  have yields : (Java.procrastinator.traversal.visit (tree ['x']) start).1.toOption = some (some (tree ['y'])) := by
    decide +kernel
  have handed : Java.procrastinator.traversal.handsOver (tree ['x']) start = [{ own := 1 }, { own := 1 }] := by
    rfl
  cases outcome : (Java.procrastinator.traversal.visit (tree ['x']) start).1 with
  | error error =>
      rw [outcome] at yields
      cases yields
  | ok result =>
      rw [outcome] at yields
      obtain rfl : result = some (tree ['y']) := Option.some.inj yields
      rw [outcome] at isRun
      exact ⟨_, turns, isRun, (all (tree ['y']) rfl outcome).trans handed⟩

end Lossless
