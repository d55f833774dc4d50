import Lossless.Java.Node
import Lossless.Proofs.Visit.Answers
import Mathlib.Data.List.Basic

/-!
# Forms with other children, and without some

`Form.map` leaves a form as it is when it leaves its children as they are. `Form.prune` takes children away: an element
of a list goes with its padding, what a form can do without becomes absent, and a form that needs what goes, goes too.
`Form.allSpaces` lists the spaces that a form keeps beside its children.
-/

namespace Lossless

variable {α β δ : Type}

/-! ## Parts that may be absent -/

/-- The padded element, when the element stays. -/
def RightPadded.prune
    (keep : α -> Option β)
    (padded : RightPadded α) : Option (RightPadded β) :=
  (keep padded.element).map fun element => ⟨element, padded.after, padded.markers⟩

/-- The padded element, when the element stays. -/
def LeftPadded.prune
    (keep : α -> Option β)
    (padded : LeftPadded α) : Option (LeftPadded β) :=
  (keep padded.element).map fun element => ⟨padded.before, element, padded.markers⟩

/-- The container with the elements that stay. -/
def Container.prune
    (keep : α -> Option β)
    (container : Container α) : Container β :=
  ⟨container.before, container.padded.filterMap (RightPadded.prune keep), container.markers⟩

namespace Java

namespace Form

/-- A change leaves the form as it is when it leaves its children as they are. -/
theorem map_eq_self_iff
    (change : α -> α)
    (form : Form α) :
    form.map change = form ↔ forall child, child ∈ form.children -> change child = child := by
  cases form with
  | compilationUnit dialect source statements eof =>
      simp [map, children, RightPadded.mapList_eq_self_iff]
  | block statements closing => simp [map, children, RightPadded.mapList_eq_self_iff]
  | conditional condition consequence alternative =>
      cases alternative <;> simp [map, children, RightPadded.map_eq_self_iff]
  | otherwise body => simp [map, children, RightPadded.map_eq_self_iff]
  | returns value => cases value <;> simp [map, children]
  | assignment target value typeTag => simp [map, children, LeftPadded.map_eq_self_iff]
  | binary left operator right typeTag => simp [map, children]
  | fieldAccess target name typeTag => simp [map, children, LeftPadded.map_eq_self_iff]
  | call receiver name arguments typeTag =>
      cases receiver <;> simp [map, children, RightPadded.map_eq_self_iff, Container.map_eq_self_iff]
  | declaration returnType name parameters body =>
      cases returnType <;> cases body <;>
        simp [map, children, Container.map_eq_self_iff, or_imp, forall_and]
  | parentheses inner => simp [map, children, RightPadded.map_eq_self_iff]
  | collection kind elements typeTag => simp [map, children, Container.map_eq_self_iff]
  | _ => simp [map, children]

theorem map_map
    (first : α -> β)
    (second : β -> δ)
    (form : Form α) :
    (form.map first).map second = form.map (fun child => second (first child)) := by
  cases form <;> simp [map, RightPadded.map, LeftPadded.map, Container.map, Function.comp_def]

/-- Taking the children of a recursion without their values gives the form back. -/
theorem map_fst_withValue
    (step : Head -> Form (Tree × β) -> β)
    (form : Form Tree) :
    (form.map (Tree.withValue step)).map Prod.fst = form := by
  rw [map_map]
  exact (map_eq_self_iff _ form).2 fun _ _ => rfl

/-- Changes that agree on the children give the same form. -/
theorem map_congr
    {first second : α -> β}
    {form : Form α}
    (same : forall child, child ∈ form.children -> first child = second child) :
    form.map first = form.map second := by
  have elements {list : List (RightPadded α)}
      (same : forall child, child ∈ RightPadded.elements list -> first child = second child) :
      list.map (·.map first) = list.map (·.map second) :=
    List.map_congr_left fun padded member => by
      rw [RightPadded.map, RightPadded.map, same _ (List.mem_map_of_mem member)]
  have container {list : Container α} (same : forall child, child ∈ list.elements -> first child = second child) :
      list.map first = list.map second :=
    congrArg (Container.mk list.before · list.markers) (elements same)
  cases form with
  | compilationUnit => simp [map, elements same]
  | block => simp [map, elements same]
  | call receiver name arguments =>
      have atArguments : arguments.map first = arguments.map second :=
        container fun child member => same child (by simp [children, member])
      cases receiver <;> simp_all [map, children, RightPadded.map]
  | declaration returnType name parameters body =>
      have atParameters : parameters.map first = parameters.map second :=
        container fun child member => same child (by simp [children, member])
      cases returnType <;> cases body <;> simp_all [map, children]
  | collection => simp [map, container same]
  | conditional condition consequence alternative =>
      cases alternative <;> simp_all [map, children, RightPadded.map]
  | returns value => cases value <;> simp_all [map, children]
  | _ => simp_all [map, children, RightPadded.map, LeftPadded.map]

/--
What is left of a form when only some children stay. The elements of lists, the value of a return, the alternative
of a conditional, the receiver of a call, and the return type and the body of a declaration can go by themselves.
-/
def prune (keep : α -> Option β) : Form α -> Option (Form β)
  | compilationUnit dialect source statements eof =>
      some (.compilationUnit dialect source (statements.filterMap (RightPadded.prune keep)) eof)
  | block statements closing =>
      some (.block (statements.filterMap (RightPadded.prune keep)) closing)
  | conditional condition consequence alternative => do
      let condition <- keep condition
      let consequence <- consequence.prune keep
      return .conditional condition consequence (alternative.bind keep)
  | otherwise body => do
      let body <- body.prune keep
      return .otherwise body
  | returns value => some (.returns (value.bind keep))
  | assignment target value typeTag => do
      let target <- keep target
      let value <- value.prune keep
      return .assignment target value typeTag
  | binary left operator right typeTag => do
      let left <- keep left
      let right <- keep right
      return .binary left operator right typeTag
  | identifier name typeTag => some (.identifier name typeTag)
  | literal source typeTag => some (.literal source typeTag)
  | fieldAccess target name typeTag => do
      let target <- keep target
      let name <- name.prune keep
      return .fieldAccess target name typeTag
  | call receiver name arguments typeTag => do
      let name <- keep name
      return .call (receiver.bind (RightPadded.prune keep)) name (arguments.prune keep) typeTag
  | declaration returnType name parameters body => do
      let name <- keep name
      return .declaration (returnType.bind keep) name (parameters.prune keep) (body.bind keep)
  | parentheses inner => do
      let inner <- inner.prune keep
      return .parentheses inner
  | collection kind elements typeTag => some (.collection kind (elements.prune keep) typeTag)
  | empty => some .empty
  | unknown text => some (.unknown text)

/-- The children that a form cannot do without. -/
def needed : Form α -> List α
  | conditional condition consequence _ => [condition, consequence.element]
  | otherwise body => [body.element]
  | assignment target value _ => [target, value.element]
  | binary left _ right _ => [left, right]
  | fieldAccess target name _ => [target, name.element]
  | call _ name _ _ => [name]
  | declaration _ name _ _ => [name]
  | parentheses inner => [inner.element]
  | _ => []

theorem needed_subset (form : Form α) : form.needed ⊆ form.children := by
  cases form <;> simp [needed, children]

/-- A form goes when a child that it needs does. -/
theorem prune_eq_none_iff
    (keep : α -> Option β)
    (form : Form α) :
    form.prune keep = none ↔ exists child, child ∈ form.needed ∧ keep child = none := by
  cases form with
  | conditional condition consequence alternative =>
      cases atCondition : keep condition <;> cases atConsequence : keep consequence.element <;>
        simp [prune, needed, RightPadded.prune, atCondition, atConsequence]
  | otherwise body =>
      cases atBody : keep body.element <;> simp [prune, needed, RightPadded.prune, atBody]
  | assignment target value typeTag =>
      cases atTarget : keep target <;> cases atValue : keep value.element <;>
        simp [prune, needed, LeftPadded.prune, atTarget, atValue]
  | binary left operator right typeTag =>
      cases atLeft : keep left <;> cases atRight : keep right <;>
        simp [prune, needed, atLeft, atRight]
  | fieldAccess target name typeTag =>
      cases atTarget : keep target <;> cases atName : keep name.element <;>
        simp [prune, needed, LeftPadded.prune, atTarget, atName]
  | call receiver name arguments typeTag => cases atName : keep name <;> simp [prune, needed, atName]
  | declaration returnType name parameters body => cases atName : keep name <;> simp [prune, needed, atName]
  | parentheses inner =>
      cases atInner : keep inner.element <;> simp [prune, needed, RightPadded.prune, atInner]
  | _ => simp [prune, needed]

theorem elements_filterMap_prune
    (keep : α -> Option β)
    (list : List (RightPadded α)) :
    RightPadded.elements (list.filterMap (RightPadded.prune keep)) = (RightPadded.elements list).filterMap keep := by
  simp only [RightPadded.elements, List.map_filterMap, List.filterMap_map, Function.comp_def, RightPadded.prune,
    Option.map_map, Option.map_id']

theorem toList_bind
    (keep : α -> Option β)
    (child : Option α) :
    (child.bind keep).toList = child.toList.filterMap keep := by
  cases child with
  | none => rfl
  | some child => cases isKept : keep child <;> simp [isKept]

/-- The children of what is left of a form are those that stay, in their order. -/
theorem children_of_prune
    {keep : α -> Option β}
    {form : Form α}
    {pruned : Form β}
    (isPruned : form.prune keep = some pruned) :
    pruned.children = form.children.filterMap keep := by
  cases form with
  | compilationUnit dialect source statements eof =>
      obtain rfl := Option.some.inj isPruned
      exact elements_filterMap_prune keep statements
  | block statements closing =>
      obtain rfl := Option.some.inj isPruned
      exact elements_filterMap_prune keep statements
  | conditional condition consequence alternative =>
      cases atCondition : keep condition <;> cases atConsequence : keep consequence.element <;>
        simp only [prune, RightPadded.prune, atCondition, atConsequence] at isPruned <;> cases isPruned
      simp [children, atCondition, atConsequence, toList_bind]
  | otherwise body =>
      cases atBody : keep body.element <;> simp only [prune, RightPadded.prune, atBody] at isPruned <;> cases isPruned
      simp [children, atBody]
  | returns value =>
      obtain rfl := Option.some.inj isPruned
      exact toList_bind keep value
  | assignment target value typeTag =>
      cases atTarget : keep target <;> cases atValue : keep value.element <;>
        simp only [prune, LeftPadded.prune, atTarget, atValue] at isPruned <;> cases isPruned
      simp [children, atTarget, atValue]
  | binary left operator right typeTag =>
      cases atLeft : keep left <;> cases atRight : keep right <;>
        simp only [prune, atLeft, atRight] at isPruned <;> cases isPruned
      simp [children, atLeft, atRight]
  | fieldAccess target name typeTag =>
      cases atTarget : keep target <;> cases atName : keep name.element <;>
        simp only [prune, LeftPadded.prune, atTarget, atName] at isPruned <;> cases isPruned
      simp [children, atTarget, atName]
  | call receiver name arguments typeTag =>
      cases atName : keep name <;> simp only [prune, atName] at isPruned <;> cases isPruned
      have atReceiver : ((receiver.bind (RightPadded.prune keep)).map fun padded => padded.element).toList =
          (receiver.map fun padded => padded.element).toList.filterMap keep := by
        rw [<- toList_bind, Option.map_bind, Option.bind_map]
        simp only [Function.comp_def, RightPadded.prune, Option.map_map, Option.map_id']
      rw [children, children, atReceiver]
      simp [Container.elements, Container.prune, atName, elements_filterMap_prune]
  | declaration returnType name parameters body =>
      cases atName : keep name <;> simp only [prune, atName] at isPruned <;> cases isPruned
      simp [children, Container.elements, Container.prune, atName, toList_bind, elements_filterMap_prune]
  | parentheses inner =>
      cases atInner : keep inner.element <;> simp only [prune, RightPadded.prune, atInner] at isPruned <;> cases isPruned
      simp [children, atInner]
  | collection kind elements typeTag =>
      obtain rfl := Option.some.inj isPruned
      exact elements_filterMap_prune keep elements.padded
  | identifier name typeTag =>
      obtain rfl := Option.some.inj isPruned
      rfl
  | literal source typeTag =>
      obtain rfl := Option.some.inj isPruned
      rfl
  | empty =>
      obtain rfl := Option.some.inj isPruned
      rfl
  | unknown text =>
      obtain rfl := Option.some.inj isPruned
      rfl

theorem prune_map
    (change : α -> β)
    (keep : β -> Option δ)
    (form : Form α) :
    (form.map change).prune keep = form.prune fun child => keep (change child) := by
  have padded (padded : RightPadded α) :
      (padded.map change).prune keep = padded.prune fun child => keep (change child) := rfl
  have optional (child? : Option α) : (child?.map change).bind keep = child?.bind fun child => keep (change child) := by
    cases child? <;> rfl
  cases form with
  | call receiver name arguments typeTag =>
      cases receiver <;> simp [map, prune, Container.prune, List.filterMap_map, padded]
  | _ =>
      simp [map, prune, Container.prune, List.filterMap_map, optional, padded, LeftPadded.prune]

/-- What is left of a form depends on its children alone. -/
theorem prune_congr
    {keep other : α -> Option β}
    {form : Form α}
    (same : forall child, child ∈ form.children -> keep child = other child) :
    form.prune keep = form.prune other := by
  have padded {padded : RightPadded α} (here : keep padded.element = other padded.element) :
      padded.prune keep = padded.prune other := by
    rw [RightPadded.prune, RightPadded.prune, here]
  have operand {padded : LeftPadded α} (here : keep padded.element = other padded.element) :
      padded.prune keep = padded.prune other := by
    rw [LeftPadded.prune, LeftPadded.prune, here]
  have elements {list : List (RightPadded α)}
      (here : forall child, child ∈ RightPadded.elements list -> keep child = other child) :
      list.filterMap (RightPadded.prune keep) = list.filterMap (RightPadded.prune other) :=
    List.filterMap_congr fun element member => padded (here _ (List.mem_map_of_mem member))
  have option {child : Option α} (here : forall present, present ∈ child.toList -> keep present = other present) :
      child.bind keep = child.bind other := by
    cases child with
    | none => rfl
    | some child => exact here child (List.mem_singleton_self child)
  cases form with
  | compilationUnit dialect source statements eof => rw [prune, prune, elements same]
  | block statements closing => rw [prune, prune, elements same]
  | conditional condition consequence alternative =>
      simp only [children, List.forall_mem_cons] at same
      rw [prune, prune, same.1, padded same.2.1, option same.2.2]
  | otherwise body => rw [prune, prune, padded (same _ (List.mem_singleton_self _))]
  | returns value => rw [prune, prune, option same]
  | assignment target value typeTag =>
      simp only [children, List.forall_mem_cons] at same
      rw [prune, prune, same.1, operand same.2.1]
  | binary left operator right typeTag =>
      simp only [children, List.forall_mem_cons] at same
      rw [prune, prune, same.1, same.2.1]
  | fieldAccess target name typeTag =>
      simp only [children, List.forall_mem_cons] at same
      rw [prune, prune, same.1, operand same.2.1]
  | call receiver name arguments typeTag =>
      simp only [children, List.forall_mem_append, List.forall_mem_cons] at same
      have atReceiver : receiver.bind (RightPadded.prune keep) = receiver.bind (RightPadded.prune other) := by
        cases receiver with
        | none => rfl
        | some receiver => exact padded (same.1 _ (List.mem_singleton_self _))
      rw [prune, prune, atReceiver, same.2.1, Container.prune, Container.prune, elements same.2.2]
  | declaration returnType name parameters body =>
      simp only [children, List.forall_mem_append, List.forall_mem_cons] at same
      rw [prune, prune, option same.1.1, same.1.2.1, Container.prune, Container.prune, elements same.1.2.2, option same.2]
  | parentheses inner => rw [prune, prune, padded (same _ (List.mem_singleton_self _))]
  | collection kind list typeTag => rw [prune, prune, Container.prune, Container.prune, elements same]
  | _ => rfl

/-- When every child stays, nothing goes. -/
theorem prune_eq_map
    (change : α -> β)
    (form : Form α) :
    form.prune (fun child => some (change child)) = some (form.map change) := by
  have padded : RightPadded.prune (fun child => some (change child)) = fun padded => some (padded.map change) := rfl
  have operand : LeftPadded.prune (fun child => some (change child)) = fun padded => some (padded.map change) := rfl
  cases form with
  | call receiver name arguments typeTag =>
      cases receiver <;> simp [prune, map, padded, Container.prune, Container.map]
  | declaration returnType name parameters body =>
      cases returnType <;> cases body <;> simp [prune, map, padded, Container.prune, Container.map]
  | conditional condition consequence alternative => cases alternative <;> simp [prune, map, padded]
  | returns value => cases value <;> simp [prune, map]
  | _ => simp [prune, map, padded, operand, Container.prune, Container.map]

end Form
end Java

/-! ## All spaces -/

/-- The spaces behind trailing commas. -/
def Markers.suffixes (markers : Markers Space) : List Space :=
  markers.findAll Fact.trailingComma?

/-- The spaces of an element and beside it. -/
def RightPadded.allSpaces
    (below : α -> List Space)
    (padded : RightPadded α) : List Space :=
  below padded.element ++ padded.after :: padded.markers.suffixes

/-- The spaces before an element, of it and behind it. -/
def LeftPadded.allSpaces
    (below : α -> List Space)
    (padded : LeftPadded α) : List Space :=
  padded.before :: below padded.element ++ padded.markers.suffixes

/-- The spaces of a list. -/
def Container.allSpaces
    (below : α -> List Space)
    (list : Container α) : List Space :=
  list.before :: list.padded.flatMap (·.allSpaces below) ++ list.markers.suffixes

namespace Java

/-- The spaces of a form, given those of its children. -/
def Form.allSpaces (below : α -> List Space) : Form α -> List Space
  | compilationUnit _ _ statements eof => statements.flatMap (·.allSpaces below) ++ [eof]
  | block statements closing => statements.flatMap (·.allSpaces below) ++ [closing]
  | conditional condition consequence alternative =>
      below condition ++ consequence.allSpaces below ++ alternative.toList.flatMap below
  | otherwise body => body.allSpaces below
  | returns value => value.toList.flatMap below
  | assignment target value _ => below target ++ value.allSpaces below
  | binary left operator right _ => below left ++ operator.allSpaces (fun _ => []) ++ below right
  | identifier .. => []
  | literal .. => []
  | fieldAccess target name _ => below target ++ name.allSpaces below
  | call receiver name arguments _ =>
      receiver.toList.flatMap (·.allSpaces below) ++ below name ++ arguments.allSpaces below
  | declaration returnType name parameters body =>
      returnType.toList.flatMap below ++ below name ++ parameters.allSpaces below ++ body.toList.flatMap below
  | parentheses inner => inner.allSpaces below
  | collection _ elements _ => elements.allSpaces below
  | empty => []
  | unknown _ => []

/-- Every space of a tree, those behind trailing commas included. -/
def Tree.allSpaces (tree : Tree) : List Space :=
  recurse (fun head form => head.leading :: head.markers.suffixes ++ form.allSpaces Prod.snd) tree

theorem Form.allSpaces_map
    (below : β -> List Space)
    (change : α -> β)
    (form : Form α) :
    (form.map change).allSpaces below = form.allSpaces fun child => below (change child) := by
  cases form with
  | conditional _ _ alternative => cases alternative <;> simp [map, allSpaces, RightPadded.allSpaces, RightPadded.map]
  | returns value => cases value <;> simp [map, allSpaces]
  | call receiver =>
      cases receiver <;>
        simp [map, allSpaces, RightPadded.allSpaces, RightPadded.map, Container.allSpaces, Container.map, List.flatMap_map]
  | declaration returnType _ _ body =>
      cases returnType <;> cases body <;>
        simp [map, allSpaces, RightPadded.allSpaces, RightPadded.map, Container.allSpaces, Container.map, List.flatMap_map]
  | _ =>
      simp [map, allSpaces, RightPadded.allSpaces, RightPadded.map, LeftPadded.allSpaces, LeftPadded.map,
        Container.allSpaces, Container.map, List.flatMap_map]

theorem Form.allSpaces_congr
    {first second : α -> List Space}
    {form : Form α}
    (same : forall child, child ∈ form.children -> first child = second child) :
    form.allSpaces first = form.allSpaces second := by
  have split (below : α -> List Space) : form.allSpaces below = (form.map below).allSpaces id :=
    (allSpaces_map id below form).symm
  rw [split, split, map_congr same]

/-- The spaces of a form are its own ones and those of its children. -/
theorem Form.mem_allSpaces_iff
    {form : Form α}
    {below : α -> List Space}
    {space : Space} :
    space ∈ form.allSpaces below ↔
      space ∈ form.allSpaces (fun _ => []) ∨ exists part, part ∈ form.children ∧ space ∈ below part := by
  cases form with
  | conditional _ _ alternative =>
      cases alternative <;> simp [allSpaces, children, RightPadded.allSpaces] <;> grind
  | returns value => cases value <;> simp [allSpaces, children]
  | call receiver =>
      cases receiver <;>
        simp [allSpaces, children, RightPadded.allSpaces, Container.allSpaces, Container.elements,
          RightPadded.elements] <;> grind
  | declaration returnType _ _ body =>
      cases returnType <;> cases body <;>
        simp [allSpaces, children, RightPadded.allSpaces, Container.allSpaces, Container.elements,
          RightPadded.elements] <;> grind
  | _ =>
      simp [allSpaces, children, RightPadded.allSpaces, LeftPadded.allSpaces, Container.allSpaces,
        Container.elements, RightPadded.elements] <;> grind

theorem Tree.allSpaces_eq (tree : Tree) :
    tree.allSpaces = tree.leading :: tree.markers.suffixes ++ tree.form.allSpaces allSpaces := by
  obtain ⟨head, form⟩ := tree
  rw [allSpaces, recurse_node, Form.allSpaces_map]
  rfl

end Java

end Lossless
