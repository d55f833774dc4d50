import Lossless.Proofs.Java.Form

/-!
# Walks that change children and nothing else

When the hooks for what is no node do nothing, a walk leaves the parts of a node with what the visits of the children
make of them: a child changes, or it goes and takes with it whatever cannot do without it.
-/

namespace Lossless
namespace Java

open VisitM

variable {σ γ : Type}
variable {visitor : Visitor σ γ} {visit : Tree -> TreeVisit σ γ (Option Tree)} {keep : Tree -> Option Tree}

/-- The hooks for what is no node do nothing. -/
structure GapVisitor.IsPlain (visitor : GapVisitor σ γ) : Prop where
  space : forall place space, (visitor.space place space).Answers space
  marker : forall marker, (visitor.marker marker).Answers marker

/-! ## Padded children -/

section Padding

variable {visitor : GapVisitor σ γ} (isPlain : visitor.IsPlain)

include isPlain

theorem GapVisitor.rightPadded_answers
    (place : ElementPlace)
    {padded : RightPadded Tree}
    (child : (visit padded.element).Answers (keep padded.element)) :
    (visitor.rightPadded visit place padded).Answers (padded.prune keep) := by
  refine .bind (.within child _) ?_
  rw [RightPadded.prune]
  cases keep padded.element with
  | none => exact .pure _
  | some element => exact .bind (isPlain.space _ _) (.bind (.markers isPlain.marker _) (.pure _))

theorem GapVisitor.rightPaddedList_answers
    (place : ElementPlace)
    {list : List (RightPadded Tree)}
    (children : forall child, child ∈ RightPadded.elements list -> (visit child).Answers (keep child)) :
    (visitor.rightPaddedList visit place list).Answers (list.filterMap (RightPadded.prune keep)) := by
  induction list with
  | nil => exact .pure _
  | cons first rest ih =>
      obtain ⟨here, later⟩ := List.forall_mem_cons.1 children
      have isSplit : (first :: rest).filterMap (RightPadded.prune keep) =
          (first.prune keep).toList ++ rest.filterMap (RightPadded.prune keep) := by
        rw [List.filterMap_cons]
        cases first.prune keep <;> rfl
      rw [isSplit]
      exact .bind (rightPadded_answers isPlain place here) (.bind (ih later) (.pure _))

theorem GapVisitor.leftPadded_answers
    (place : OperandPlace)
    {padded : LeftPadded Tree}
    (child : (visit padded.element).Answers (keep padded.element)) :
    (visitor.leftPadded visit place padded).Answers (padded.prune keep) := by
  have parts : Answers (do
      let before <- visitor.space place.before padded.before
      return (before, <- visit padded.element)) (padded.before, keep padded.element) :=
    .bind (isPlain.space _ _) (.bind child (.pure _))
  refine .bind (.within parts _) ?_
  rw [LeftPadded.prune]
  cases keep padded.element with
  | none => exact .pure _
  | some element => exact .bind (.markers isPlain.marker _) (.pure _)

theorem GapVisitor.operator_answers (padded : LeftPadded Operator) :
    (visitor.operator padded).Answers padded :=
  .bind (.attempt (.within (isPlain.space _ _) _)) <|
    .bind (.markers isPlain.marker _) (.bind (.pure _) (.pure _))

theorem GapVisitor.container_answers
    (place : ContainerPlace)
    {list : Container Tree}
    (children : forall child, child ∈ list.elements -> (visit child).Answers (keep child)) :
    (visitor.container visit place list).Answers (list.prune keep) := by
  have parts : Answers (do
      let before <- visitor.space place.before list.before
      return (before, <- visitor.rightPaddedList visit place.element list.padded))
      (list.before, (list.prune keep).padded) :=
    .bind (isPlain.space _ _) (.bind (rightPaddedList_answers isPlain _ children) (.pure _))
  exact .bind (.within parts _) (.bind (.markers isPlain.marker _) (.pure _))

end Padding

/-! ## Forms and nodes -/

namespace Visitor

variable (isPlain : visitor.toGapVisitor.IsPlain)
variable (plainLists : visitor.visitContainer = visitor.toGapVisitor.container)

include isPlain

omit isPlain in
theorem visitOption_answers
    {tree : Option Tree}
    (child : forall child, tree = some child -> (visit child).Answers (keep child)) :
    (visitOption visit tree).Answers (tree.bind keep) := by
  cases tree with
  | none => exact .pure _
  | some tree => exact child tree rfl

theorem visitReceiver_answers
    {padded : Option (RightPadded Tree)}
    (child : forall receiver, padded = some receiver -> (visit receiver.element).Answers (keep receiver.element)) :
    (visitor.visitReceiver visit padded).Answers (padded.bind (RightPadded.prune keep)) := by
  cases padded with
  | none => exact .pure _
  | some padded => exact GapVisitor.rightPadded_answers isPlain _ (child padded rfl)

include plainLists

/-- When the hooks do nothing, a form is left with the children that stay. -/
theorem visitForm_answers
    {form : Form Tree}
    (children : forall child, child ∈ form.children -> (visit child).Answers (keep child)) :
    (visitor.visitForm visit form).Answers (form.prune keep) := by
  cases form with
  | compilationUnit dialect source statements eof =>
      exact .bind (GapVisitor.rightPaddedList_answers isPlain _ children) (.bind (isPlain.space _ _) (.pure _))
  | block statements closing =>
      exact .bind (GapVisitor.rightPaddedList_answers isPlain _ children) (.bind (isPlain.space _ _) (.pure _))
  | conditional condition consequence alternative =>
      have atConsequence := GapVisitor.rightPadded_answers isPlain .ifThen
        (children consequence.element (by simp [Form.children]))
      refine .bind (children condition (by simp [Form.children])) ?_
      rw [Form.prune]
      cases keep condition with
      | none => exact .pure _
      | some condition =>
          refine .bind atConsequence ?_
          cases consequence.prune keep with
          | none => exact .pure _
          | some consequence =>
              exact .bind (visitOption_answers fun child present =>
                children child (by simp [Form.children, present])) (.pure _)
  | otherwise body =>
      refine .bind (GapVisitor.rightPadded_answers isPlain _ (children body.element (by simp [Form.children]))) ?_
      rw [Form.prune]
      cases body.prune keep <;> exact .pure _
  | returns value =>
      exact .bind (visitOption_answers fun child present =>
        children child (by simp [Form.children, present])) (.pure _)
  | assignment target value typeTag =>
      have atValue := GapVisitor.leftPadded_answers isPlain .assignmentValue
        (children value.element (by simp [Form.children]))
      refine .bind (children target (by simp [Form.children])) ?_
      rw [Form.prune]
      cases keep target with
      | none => exact .pure _
      | some target =>
          refine .bind atValue ?_
          cases value.prune keep <;> exact .pure _
  | binary left operator right typeTag =>
      have atRight := children right (by simp [Form.children])
      refine .bind (children left (by simp [Form.children])) ?_
      rw [Form.prune]
      cases keep left with
      | none => exact .pure _
      | some left =>
          refine .bind (GapVisitor.operator_answers isPlain operator) (.bind atRight ?_)
          cases keep right <;> exact .pure _
  | identifier name typeTag => exact .pure _
  | literal source typeTag => exact .pure _
  | fieldAccess target name typeTag =>
      have atName := GapVisitor.leftPadded_answers isPlain .fieldAccessName
        (children name.element (by simp [Form.children]))
      refine .bind (children target (by simp [Form.children])) ?_
      rw [Form.prune]
      cases keep target with
      | none => exact .pure _
      | some target =>
          refine .bind atName ?_
          cases name.prune keep <;> exact .pure _
  | call receiver name arguments typeTag =>
      have atArguments : (visitor.toGapVisitor.container visit .methodInvocationArguments arguments).Answers
          (arguments.prune keep) :=
        GapVisitor.container_answers isPlain _ fun child member => children child (by simp [Form.children, member])
      refine .bind (visitReceiver_answers isPlain fun padded present =>
        children padded.element (by simp [Form.children, present])) ?_
      refine .bind (children name (by simp [Form.children])) ?_
      rw [Form.prune, plainLists]
      cases keep name with
      | none => exact .pure _
      | some name => exact .bind atArguments (.pure _)
  | declaration returnType name parameters body =>
      have atParameters : (visitor.toGapVisitor.container visit .methodDeclarationParameters parameters).Answers
          (parameters.prune keep) :=
        GapVisitor.container_answers isPlain _ fun child member => children child (by simp [Form.children, member])
      refine .bind (visitOption_answers fun child present =>
        children child (by simp [Form.children, present])) ?_
      refine .bind (children name (by simp [Form.children])) ?_
      rw [Form.prune, plainLists]
      cases keep name with
      | none => exact .pure _
      | some name =>
          refine .bind atParameters ?_
          exact .bind (visitOption_answers fun child present =>
            children child (by simp [Form.children, present])) (.pure _)
  | parentheses inner =>
      refine .bind (GapVisitor.rightPadded_answers isPlain _ (children inner.element (by simp [Form.children]))) ?_
      rw [Form.prune]
      cases inner.prune keep <;> exact .pure _
  | collection kind list typeTag =>
      rw [visitForm, plainLists]
      exact .bind (GapVisitor.container_answers isPlain _ children) (.pure _)
  | empty => exact .pure _
  | unknown text => exact .pure _

variable (visitor)

/-- When the hooks do nothing, a node is left with the children that stay. -/
theorem descend_answers
    {tree : Tree}
    (children : forall child, child ∈ tree.children -> (visit child).Answers (keep child)) :
    (visitor.descend visit tree).Answers ((tree.form.prune keep).map (tree.revise tree.leading tree.markers)) := by
  refine .bind (isPlain.space _ _) <| .bind (.markers isPlain.marker _) <|
    .bind (visitForm_answers isPlain plainLists children) ?_
  cases tree.form.prune keep <;> exact .pure _

/-- When the hooks do nothing and all children stay, a node is left with its children changed. -/
theorem descend_answers_of_change
    {tree : Tree}
    {change : Tree -> Tree}
    (children : forall child, child ∈ tree.children -> (visit child).Answers (some (change child))) :
    (visitor.descend visit tree).Answers
      (some (tree.revise tree.leading tree.markers (tree.form.map change))) := by
  have descended := visitor.descend_answers isPlain plainLists children
  rwa [Form.prune_eq_map] at descended

end Visitor

/-!
## Walks that pass a state on

The same parts for visits of children that all stay, and that pass the visitor's own state on to the next.
-/

variable {change : Tree -> Tree} {own moved : σ}

section Padding

variable {visitor : GapVisitor σ γ} (isPlain : visitor.IsPlain)

include isPlain

theorem GapVisitor.rightPadded_moves
    (place : ElementPlace)
    {padded : RightPadded Tree}
    (child : (visit padded.element).Moves own moved (some (change padded.element))) :
    (visitor.rightPadded visit place padded).Moves own moved (some (padded.map change)) :=
  .bind (.within child _) <| .bind ((isPlain.space _ _).moves _) <|
    .bind ((Answers.markers isPlain.marker _).moves _) ((Answers.pure _).moves _)

theorem GapVisitor.rightPaddedList_moves
    (place : ElementPlace)
    {list : List (RightPadded Tree)}
    (children : Proceeds visit change own (RightPadded.elements list) moved) :
    (visitor.rightPaddedList visit place list).Moves own moved (list.map (·.map change)) := by
  induction list generalizing own with
  | nil =>
      cases children
      exact (Answers.pure _).moves _
  | cons first rest ih =>
      obtain ⟨middle, here, later⟩ := children.of_cons
      exact .bind (rightPadded_moves isPlain place here) (.bind (ih later) ((Answers.pure _).moves _))

theorem GapVisitor.leftPadded_moves
    (place : OperandPlace)
    {padded : LeftPadded Tree}
    (child : (visit padded.element).Moves own moved (some (change padded.element))) :
    (visitor.leftPadded visit place padded).Moves own moved (some (padded.map change)) := by
  have parts : Moves own moved (do
      let before <- visitor.space place.before padded.before
      return (before, <- visit padded.element)) (padded.before, some (change padded.element)) :=
    .bind ((isPlain.space _ _).moves _) (.bind child ((Answers.pure _).moves _))
  exact .bind (.within parts _) (.bind ((Answers.markers isPlain.marker _).moves _) ((Answers.pure _).moves _))

theorem GapVisitor.container_moves
    (place : ContainerPlace)
    {list : Container Tree}
    (children : Proceeds visit change own list.elements moved) :
    (visitor.container visit place list).Moves own moved (list.map change) := by
  have parts : Moves own moved (do
      let before <- visitor.space place.before list.before
      return (before, <- visitor.rightPaddedList visit place.element list.padded))
      (list.before, (list.map change).padded) :=
    .bind ((isPlain.space _ _).moves _)
      (.bind (rightPaddedList_moves isPlain _ children) ((Answers.pure _).moves _))
  exact .bind (.within parts _) (.bind ((Answers.markers isPlain.marker _).moves _) ((Answers.pure _).moves _))

end Padding

namespace Visitor

variable (isPlain : visitor.toGapVisitor.IsPlain)
variable (plainLists : visitor.visitContainer = visitor.toGapVisitor.container)

include isPlain

omit isPlain in
theorem visitOption_moves
    {tree : Option Tree}
    (child : Proceeds visit change own tree.toList moved) :
    (visitOption visit tree).Moves own moved (tree.map change) := by
  cases tree with
  | none =>
      cases child
      exact (Answers.pure _).moves _
  | some tree => exact child.of_singleton

theorem visitReceiver_moves
    {padded : Option (RightPadded Tree)}
    (child : Proceeds visit change own (padded.map (·.element)).toList moved) :
    (visitor.visitReceiver visit padded).Moves own moved (padded.map (·.map change)) := by
  cases padded with
  | none =>
      cases child
      exact (Answers.pure _).moves _
  | some padded => exact GapVisitor.rightPadded_moves isPlain _ child.of_singleton

include plainLists

/-- A form is left with its children changed, and the state is what they make of it in source order. -/
theorem visitForm_moves
    {form : Form Tree}
    (children : Proceeds visit change own form.children moved) :
    (visitor.visitForm visit form).Moves own moved (some (form.map change)) := by
  have done (value : Option (Form Tree)) :
      (Pure.pure value : TreeVisit σ γ _).Moves moved moved value := (Answers.pure value).moves moved
  cases form with
  | compilationUnit dialect source statements eof =>
      exact .bind (GapVisitor.rightPaddedList_moves isPlain _ children) (.bind ((isPlain.space _ _).moves _) (done _))
  | block statements closing =>
      exact .bind (GapVisitor.rightPaddedList_moves isPlain _ children) (.bind ((isPlain.space _ _).moves _) (done _))
  | conditional condition consequence alternative =>
      obtain ⟨_, atCondition, later⟩ := children.of_cons
      obtain ⟨_, atConsequence, atAlternative⟩ := later.of_cons
      exact .bind atCondition <| .bind (GapVisitor.rightPadded_moves isPlain .ifThen atConsequence) <|
        .bind (visitOption_moves atAlternative) (done _)
  | otherwise body => exact .bind (GapVisitor.rightPadded_moves isPlain _ children.of_singleton) (done _)
  | returns value => exact .bind (visitOption_moves children) (done _)
  | assignment target value typeTag =>
      obtain ⟨_, atTarget, atValue⟩ := children.of_cons
      exact .bind atTarget <| .bind (GapVisitor.leftPadded_moves isPlain .assignmentValue atValue.of_singleton) (done _)
  | binary left operator right typeTag =>
      obtain ⟨_, atLeft, atRight⟩ := children.of_cons
      exact .bind atLeft <| .bind ((GapVisitor.operator_answers isPlain operator).moves _) <|
        .bind atRight.of_singleton (done _)
  | identifier name typeTag =>
      cases children
      exact done _
  | literal source typeTag =>
      cases children
      exact done _
  | fieldAccess target name typeTag =>
      obtain ⟨_, atTarget, atName⟩ := children.of_cons
      exact .bind atTarget <| .bind (GapVisitor.leftPadded_moves isPlain .fieldAccessName atName.of_singleton) (done _)
  | call receiver name arguments typeTag =>
      obtain ⟨_, atReceiver, later⟩ := children.of_append
      obtain ⟨_, atName, atArguments⟩ := later.of_cons
      rw [visitForm, plainLists]
      exact .bind (visitReceiver_moves isPlain atReceiver) <| .bind atName <|
        .bind (GapVisitor.container_moves isPlain _ atArguments) (done _)
  | declaration returnType name parameters body =>
      obtain ⟨_, before, atBody⟩ := children.of_append
      obtain ⟨_, atReturnType, later⟩ := before.of_append
      obtain ⟨_, atName, atParameters⟩ := later.of_cons
      rw [visitForm, plainLists]
      exact .bind (visitOption_moves atReturnType) <| .bind atName <|
        .bind (GapVisitor.container_moves isPlain _ atParameters) (.bind (visitOption_moves atBody) (done _))
  | parentheses inner => exact .bind (GapVisitor.rightPadded_moves isPlain _ children.of_singleton) (done _)
  | collection kind list typeTag =>
      rw [visitForm, plainLists]
      exact .bind (GapVisitor.container_moves isPlain _ children) (done _)
  | empty =>
      cases children
      exact done _
  | unknown text =>
      cases children
      exact done _

variable (visitor)

/-- A node is left with its children changed, and the state is what they make of it in source order. -/
theorem descend_moves
    {tree : Tree}
    (children : Proceeds visit change own tree.children moved) :
    (visitor.descend visit tree).Moves own moved
      (some (tree.revise tree.leading tree.markers (tree.form.map change))) :=
  .bind ((isPlain.space _ _).moves _) <| .bind ((Answers.markers isPlain.marker _).moves _) <|
    .bind (visitForm_moves isPlain plainLists children) ((Answers.pure _).moves _)

end Visitor
end Java
end Lossless
