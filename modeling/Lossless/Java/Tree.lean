import Lossless.Padding
import Lossless.Java.Operator
import Lossless.Java.Place
import Lossless.Path
import Lossless.Visit

/-!
# Syntax trees

A node has a head, with its identity, the space before it and its markers, and a form, which says what
kind of syntax it is and holds its children. Spaces, paddings and tokens together hold every character of
the source.

`Form α` is the form of a node whose children are of type `α`; `Form.map`, `Form.children` and
`Form.agree` treat all children alike. `Tree.recurse` builds a value from the leaves up, and
`Tree.induction` proves a property from the leaves up; every function over whole trees and every proof
about one goes through these two.
-/

namespace Lossless
namespace Java

/-- The brackets of a collection. -/
inductive CollectionKind
  | list
  | set
  | tuple
  deriving DecidableEq

namespace CollectionKind

def all : List CollectionKind := [list, set, tuple]

/-- The name of a kind. -/
def name : CollectionKind -> Text
  | list => "List".toList
  | set => "Set".toList
  | tuple => "Tuple".toList

/-- The kind with a name. -/
def ofName? (name : Text) : Option CollectionKind :=
  all.find? fun kind => kind.name = name

/-- The opening and the closing delimiter. -/
def delimiters : CollectionKind -> Text × Text
  | list => (['['], [']'])
  | set => (['\x7b'], ['\x7d'])
  | tuple => (['('], [')'])

end CollectionKind

/-- The kind of a node with its children. -/
inductive Form (α : Type)
  | compilationUnit
      (dialect : Dialect)
      (source : SourceInfo)
      (statements : List (RightPadded α))
      (eof : Space)
  | block
      (statements : List (RightPadded α))
      (closing : Space)
  | conditional
      (condition : α)
      (consequence : RightPadded α)
      (alternative : Option α)
  /-- The part of a conditional from its `else` on. -/
  | otherwise (body : RightPadded α)
  | returns (value : Option α)
  | assignment
      (target : α)
      (value : LeftPadded α)
      (typeTag : Option Text)
  | binary
      (left : α)
      (operator : LeftPadded Operator)
      (right : α)
      (typeTag : Option Text)
  | identifier
      (name : Text)
      (typeTag : Option Text)
  /-- A literal as it is written. -/
  | literal
      (source : Text)
      (typeTag : Option Text)
  | fieldAccess
      (target : α)
      (name : LeftPadded α)
      (typeTag : Option Text)
  /-- A call; the padding of the receiver is the space before the dot. -/
  | call
      (receiver : Option (RightPadded α))
      (name : α)
      (arguments : Container α)
      (typeTag : Option Text)
  | declaration
      (returnType : Option α)
      (name : α)
      (parameters : Container α)
      (body : Option α)
  | parentheses (inner : RightPadded α)
  | collection
      (kind : CollectionKind)
      (elements : Container α)
      (typeTag : Option Text)
  /-- Nothing: an empty statement, or the only element of an empty list. -/
  | empty
  /-- Source text that no other form describes. -/
  | unknown (text : Text)

namespace Form

/-- The name of the kind. -/
def kindName : Form α -> Text
  | compilationUnit .. => "CompilationUnit".toList
  | block .. => "Block".toList
  | conditional .. => "If".toList
  | otherwise .. => "Else".toList
  | returns .. => "Return".toList
  | assignment .. => "Assignment".toList
  | binary .. => "Binary".toList
  | identifier .. => "Identifier".toList
  | literal .. => "Literal".toList
  | fieldAccess .. => "FieldAccess".toList
  | call .. => "MethodInvocation".toList
  | declaration .. => "MethodDeclaration".toList
  | parentheses .. => "Parentheses".toList
  | collection .. => "CollectionLiteral".toList
  | empty => "Empty".toList
  | unknown .. => "Unknown".toList

/-- Change every child. -/
def map (change : α -> β) : Form α -> Form β
  | compilationUnit dialect source statements eof =>
      .compilationUnit dialect source (statements.map (·.map change)) eof
  | block statements closing => .block (statements.map (·.map change)) closing
  | conditional condition consequence alternative =>
      .conditional (change condition) (consequence.map change) (alternative.map change)
  | otherwise body => .otherwise (body.map change)
  | returns value => .returns (value.map change)
  | assignment target value typeTag =>
      .assignment (change target) (value.map change) typeTag
  | binary left operator right typeTag =>
      .binary (change left) operator (change right) typeTag
  | identifier name typeTag => .identifier name typeTag
  | literal source typeTag => .literal source typeTag
  | fieldAccess target name typeTag =>
      .fieldAccess (change target) (name.map change) typeTag
  | call receiver name arguments typeTag =>
      .call (receiver.map (·.map change)) (change name) (arguments.map change) typeTag
  | declaration returnType name parameters body =>
      .declaration (returnType.map change) (change name) (parameters.map change)
        (body.map change)
  | parentheses inner => .parentheses (inner.map change)
  | collection kind elements typeTag => .collection kind (elements.map change) typeTag
  | empty => .empty
  | unknown text => .unknown text

/-- The children in source order. -/
def children : Form α -> List α
  | compilationUnit _ _ statements _ => RightPadded.elements statements
  | block statements _ => RightPadded.elements statements
  | conditional condition consequence alternative =>
      condition :: consequence.element :: alternative.toList
  | otherwise body => [body.element]
  | returns value => value.toList
  | assignment target value _ => [target, value.element]
  | binary left _ right _ => [left, right]
  | identifier .. => []
  | literal .. => []
  | fieldAccess target name _ => [target, name.element]
  | call receiver name arguments _ =>
      (receiver.map (·.element)).toList ++ name :: arguments.elements
  | declaration returnType name parameters body =>
      returnType.toList ++ name :: parameters.elements ++ body.toList
  | parentheses inner => [inner.element]
  | collection _ elements _ => elements.elements
  | empty => []
  | unknown _ => []

/-- The opaque type annotation of a node, on the kinds that can have one. -/
def typeTag? : Form α -> Option Text
  | assignment _ _ typeTag => typeTag
  | binary _ _ _ typeTag => typeTag
  | identifier _ typeTag => typeTag
  | literal _ typeTag => typeTag
  | fieldAccess _ _ typeTag => typeTag
  | call _ _ _ typeTag => typeTag
  | collection _ _ typeTag => typeTag
  | _ => none

/-- Put a type annotation on a form of a kind that can have one. -/
def withTypeTag
    (tag : Option Text) : Form α -> Form α
  | assignment target value _ => .assignment target value tag
  | binary left operator right _ => .binary left operator right tag
  | identifier name _ => .identifier name tag
  | literal source _ => .literal source tag
  | fieldAccess target name _ => .fieldAccess target name tag
  | call receiver name arguments _ => .call receiver name arguments tag
  | collection kind elements _ => .collection kind elements tag
  | form => form

/-- Can stand where a value is expected. -/
def isExpression : Form α -> Bool
  | assignment .. | binary .. | identifier .. | literal .. | fieldAccess .. | call ..
  | parentheses .. | collection .. | empty | unknown .. => true
  | _ => false

/-- Can stand in a list of statements. -/
def isStatement : Form α -> Bool
  | block .. | conditional .. | returns .. | assignment .. | call .. | declaration .. | empty
  | unknown .. => true
  | _ => false

/-- A statement of this kind ends without a semicolon in Java. -/
def isSelfTerminated : Form α -> Bool
  | block .. | conditional .. | otherwise .. | unknown .. => true
  | declaration _ _ _ body => body.isSome
  | _ => false

/-- The text of a name, of a literal or of unknown source. -/
def text : Form α -> Text
  | identifier name _ => name
  | literal source _ => source
  | unknown text => text
  | _ => []

/-- Both absent, or both there and agreeing. -/
def optionAgree
    (relation : α -> β -> Bool) : Option α -> Option β -> Bool
  | none, none => true
  | some left, some right => relation left right
  | _, _ => false

/-- Left-padded elements that agree, with equal padding. -/
def leftPaddedAgree
    (relation : α -> β -> Bool)
    (left : LeftPadded α)
    (right : LeftPadded β) : Bool :=
  left.before = right.before && relation left.element right.element &&
    left.markers = right.markers

/-- Containers whose elements agree pairwise, with equal padding. -/
def containerAgree
    (relation : α -> β -> Bool)
    (left : Container α)
    (right : Container β) : Bool :=
  left.before = right.before && RightPadded.listAgreeBy relation left.padded right.padded &&
    left.markers = right.markers

/-- Forms of one kind that are equal but for their children, and whose children agree pairwise. -/
def agree (relation : α -> β -> Bool) : Form α -> Form β -> Bool
  | compilationUnit dialect source statements eof,
      compilationUnit dialect' source' statements' eof' =>
      dialect = dialect' && source = source' && RightPadded.listAgreeBy relation statements statements' &&
        eof = eof'
  | block statements closing, block statements' closing' =>
      RightPadded.listAgreeBy relation statements statements' && closing = closing'
  | conditional condition consequence alternative,
      conditional condition' consequence' alternative' =>
      relation condition condition' && RightPadded.agreeBy relation consequence consequence' &&
        optionAgree relation alternative alternative'
  | otherwise body, otherwise body' => RightPadded.agreeBy relation body body'
  | returns value, returns value' => optionAgree relation value value'
  | assignment target value typeTag, assignment target' value' typeTag' =>
      relation target target' && leftPaddedAgree relation value value' && typeTag = typeTag'
  | binary left operator right typeTag, binary left' operator' right' typeTag' =>
      relation left left' && operator = operator' && relation right right' &&
        typeTag = typeTag'
  | identifier name typeTag, identifier name' typeTag' => name = name' && typeTag = typeTag'
  | literal source typeTag, literal source' typeTag' =>
      source = source' && typeTag = typeTag'
  | fieldAccess target name typeTag, fieldAccess target' name' typeTag' =>
      relation target target' && leftPaddedAgree relation name name' && typeTag = typeTag'
  | call receiver name arguments typeTag, call receiver' name' arguments' typeTag' =>
      optionAgree (RightPadded.agreeBy relation) receiver receiver' && relation name name' &&
        containerAgree relation arguments arguments' && typeTag = typeTag'
  | declaration returnType name parameters body,
      declaration returnType' name' parameters' body' =>
      optionAgree relation returnType returnType' && relation name name' &&
        containerAgree relation parameters parameters' && optionAgree relation body body'
  | parentheses inner, parentheses inner' => RightPadded.agreeBy relation inner inner'
  | collection kind elements typeTag, collection kind' elements' typeTag' =>
      kind = kind' && containerAgree relation elements elements' && typeTag = typeTag'
  | empty, empty => true
  | unknown text, unknown text' => text = text'
  | _, _ => false

@[simp] theorem children_map
    (change : α -> β)
    (form : Form α) :
    (form.map change).children = form.children.map change := by
  cases form with
  | conditional condition consequence alternative => cases alternative <;> simp [map, children]
  | returns value => cases value <;> simp [map, children]
  | call receiver name arguments typeTag =>
      cases receiver <;> simp [map, children, Container.elements]
  | declaration returnType name parameters body =>
      cases returnType <;> cases body <;> simp [map, children, Container.elements]
  | _ => simp [map, children, Container.elements]

theorem optionAgree_iff
    {relation : α -> α -> Bool}
    (left right : Option α)
    (decides : forall element, left = some element ->
      forall other, relation element other = true ↔ element = other) :
    optionAgree relation left right = true ↔ left = right := by
  cases left <;> cases right <;> simp_all [optionAgree]

theorem leftPaddedAgree_iff
    {relation : α -> α -> Bool}
    (left right : LeftPadded α)
    (decides : relation left.element right.element = true ↔ left.element = right.element) :
    leftPaddedAgree relation left right = true ↔ left = right := by
  obtain ⟨before, element, markers⟩ := left
  obtain ⟨before', element', markers'⟩ := right
  simp_all [leftPaddedAgree, and_assoc]

theorem containerAgree_iff
    {relation : α -> α -> Bool}
    (left right : Container α)
    (decides : forall element, element ∈ left.elements ->
      forall other, relation element other = true ↔ element = other) :
    containerAgree relation left right = true ↔ left = right := by
  obtain ⟨before, padded, markers⟩ := left
  obtain ⟨before', padded', markers'⟩ := right
  have atElements := RightPadded.listAgreeBy_iff padded padded' decides
  simp_all [containerAgree, and_assoc]

/-- Agreement is equality when the relation on children is. -/
theorem agree_iff
    {relation : α -> α -> Bool}
    (left right : Form α)
    (decides : forall child, child ∈ left.children ->
      forall other, relation child other = true ↔ child = other) :
    left.agree relation right = true ↔ left = right := by
  cases left with
  | compilationUnit dialect source statements eof =>
      cases right <;> simp [agree, RightPadded.listAgreeBy_iff _ _ decides, and_assoc]
  | block statements closing =>
      cases right <;> simp [agree, RightPadded.listAgreeBy_iff _ _ decides]
  | conditional condition consequence alternative =>
      cases right with
      | conditional condition' consequence' alternative' =>
          have atCondition := decides condition (by simp [children]) condition'
          have atConsequence := RightPadded.agreeBy_iff consequence consequence'
            (decides consequence.element (by simp [children]) consequence'.element)
          have atAlternative := optionAgree_iff alternative alternative' fun element present =>
            decides element (by simp [children, present])
          simp [agree, atCondition, atConsequence, atAlternative, and_assoc]
      | _ => simp [agree]
  | otherwise body =>
      cases right with
      | otherwise body' =>
          have atBody := RightPadded.agreeBy_iff body body'
            (decides body.element (by simp [children]) body'.element)
          simp [agree, atBody]
      | _ => simp [agree]
  | returns value =>
      cases right with
      | returns value' =>
          have atValue := optionAgree_iff value value' fun element present =>
            decides element (by simp [children, present])
          simp [agree, atValue]
      | _ => simp [agree]
  | assignment target value typeTag =>
      cases right with
      | assignment target' value' typeTag' =>
          have atTarget := decides target (by simp [children]) target'
          have atValue := leftPaddedAgree_iff value value'
            (decides value.element (by simp [children]) value'.element)
          simp [agree, atTarget, atValue, and_assoc]
      | _ => simp [agree]
  | binary left operator right' typeTag =>
      cases right with
      | binary left' operator' right'' typeTag' =>
          have atLeft := decides left (by simp [children]) left'
          have atRight := decides right' (by simp [children]) right''
          simp [agree, atLeft, atRight, and_assoc]
      | _ => simp [agree]
  | identifier name typeTag => cases right <;> simp [agree]
  | literal source typeTag => cases right <;> simp [agree]
  | fieldAccess target name typeTag =>
      cases right with
      | fieldAccess target' name' typeTag' =>
          have atTarget := decides target (by simp [children]) target'
          have atName := leftPaddedAgree_iff name name'
            (decides name.element (by simp [children]) name'.element)
          simp [agree, atTarget, atName, and_assoc]
      | _ => simp [agree]
  | call receiver name arguments typeTag =>
      cases right with
      | call receiver' name' arguments' typeTag' =>
          have atReceiver : optionAgree (RightPadded.agreeBy relation) receiver receiver' = true ↔
              receiver = receiver' := by
            cases receiver with
            | none => cases receiver' <;> simp [optionAgree]
            | some padded =>
                cases receiver' with
                | none => simp [optionAgree]
                | some padded' =>
                    have atPadded := RightPadded.agreeBy_iff padded padded'
                      (decides padded.element (by simp [children]) padded'.element)
                    simp [optionAgree, atPadded]
          have atName := decides name (by simp [children]) name'
          have atArguments := containerAgree_iff arguments arguments' fun element member =>
            decides element (by simp [children, member])
          simp [agree, atReceiver, atName, atArguments, and_assoc]
      | _ => simp [agree]
  | declaration returnType name parameters body =>
      cases right with
      | declaration returnType' name' parameters' body' =>
          have atReturnType := optionAgree_iff returnType returnType' fun element present =>
            decides element (by simp [children, present])
          have atName := decides name (by simp [children]) name'
          have atParameters := containerAgree_iff parameters parameters' fun element member =>
            decides element (by simp [children, member])
          have atBody := optionAgree_iff body body' fun element present =>
            decides element (by simp [children, present])
          simp [agree, atReturnType, atName, atParameters, atBody, and_assoc]
      | _ => simp [agree]
  | parentheses inner =>
      cases right with
      | parentheses inner' =>
          have atInner := RightPadded.agreeBy_iff inner inner'
            (decides inner.element (by simp [children]) inner'.element)
          simp [agree, atInner]
      | _ => simp [agree]
  | collection kind elements typeTag =>
      cases right with
      | collection kind' elements' typeTag' =>
          have atElements := containerAgree_iff elements elements' fun element member =>
            decides element (by simp [children, member])
          simp [agree, atElements, and_assoc]
      | _ => simp [agree]
  | empty => cases right <;> simp [agree]
  | unknown text => cases right <;> simp [agree]

instance [DecidableEq α] : DecidableEq (Form α) := fun left right =>
  decidable_of_iff (left.agree (fun child other => child = other) right)
    (agree_iff left right fun _ _ _ => decide_eq_true_iff)

theorem optionAgree_map
    (relation : β -> γ -> Bool)
    (change : α -> β)
    (left : Option α)
    (right : Option γ) :
    optionAgree relation (left.map change) right =
      optionAgree (fun element => relation (change element)) left right := by
  cases left <;> cases right <;> rfl

/-- Changing the children of the left form is changing what they are compared by. -/
theorem agree_map
    (relation : β -> γ -> Bool)
    (change : α -> β)
    (left : Form α)
    (right : Form γ) :
    (left.map change).agree relation right =
      left.agree (fun element => relation (change element)) right := by
  cases left with
  | call receiver name arguments typeTag =>
      cases receiver <;> cases right <;>
        simp [map, agree, containerAgree, RightPadded.listAgreeBy_map, optionAgree]
      all_goals rename_i receiver' _ _ _; cases receiver' <;> rfl
  | _ =>
      cases right <;>
        simp [map, agree, RightPadded.listAgreeBy_map, optionAgree_map, RightPadded.agreeBy, leftPaddedAgree,
          containerAgree] <;>
        rfl

end Form

/-- A syntax tree. -/
inductive Tree
  | node (head : Head) (form : Form Tree)

namespace Tree

def head : Tree -> Head
  | node head _ => head

def form : Tree -> Form Tree
  | node _ form => form

/-- The children in source order. -/
def children (tree : Tree) : List Tree :=
  tree.form.children

/-! ## Recursion and induction -/

mutual

/-- Build a value from the leaves up; each child comes with its own value. -/
def recurse (step : Head -> Form (Tree × β) -> β) : Tree -> β
  | node head form => step head (recurseForm step form)

/-- Build the values of the children of a form. -/
def recurseForm (step : Head -> Form (Tree × β) -> β) : Form Tree -> Form (Tree × β)
  | .compilationUnit dialect source statements eof =>
      .compilationUnit dialect source (recurseList step statements) eof
  | .block statements closing => .block (recurseList step statements) closing
  | .conditional condition ⟨consequence, after, markers⟩ alternative =>
      .conditional (condition, recurse step condition)
        ⟨(consequence, recurse step consequence), after, markers⟩
        (recurseOption step alternative)
  | .otherwise ⟨body, after, markers⟩ => .otherwise ⟨(body, recurse step body), after, markers⟩
  | .returns value => .returns (recurseOption step value)
  | .assignment target ⟨before, value, markers⟩ typeTag =>
      .assignment (target, recurse step target) ⟨before, (value, recurse step value), markers⟩
        typeTag
  | .binary left operator right typeTag =>
      .binary (left, recurse step left) operator (right, recurse step right) typeTag
  | .identifier name typeTag => .identifier name typeTag
  | .literal source typeTag => .literal source typeTag
  | .fieldAccess target ⟨before, name, markers⟩ typeTag =>
      .fieldAccess (target, recurse step target) ⟨before, (name, recurse step name), markers⟩
        typeTag
  | .call none name ⟨before, arguments, markers⟩ typeTag =>
      .call none (name, recurse step name) ⟨before, recurseList step arguments, markers⟩ typeTag
  | .call (some ⟨receiver, after, outer⟩) name ⟨before, arguments, markers⟩ typeTag =>
      .call (some ⟨(receiver, recurse step receiver), after, outer⟩) (name, recurse step name)
        ⟨before, recurseList step arguments, markers⟩ typeTag
  | .declaration returnType name ⟨before, parameters, markers⟩ body =>
      .declaration (recurseOption step returnType) (name, recurse step name)
        ⟨before, recurseList step parameters, markers⟩ (recurseOption step body)
  | .parentheses ⟨inner, after, markers⟩ =>
      .parentheses ⟨(inner, recurse step inner), after, markers⟩
  | .collection kind ⟨before, elements, markers⟩ typeTag =>
      .collection kind ⟨before, recurseList step elements, markers⟩ typeTag
  | .empty => .empty
  | .unknown text => .unknown text

/-- Build the values of a padded list. -/
def recurseList
    (step : Head -> Form (Tree × β) -> β) :
    List (RightPadded Tree) -> List (RightPadded (Tree × β))
  | [] => []
  | ⟨element, after, markers⟩ :: rest =>
      ⟨(element, recurse step element), after, markers⟩ :: recurseList step rest

/-- Build the value of a child that may be absent. -/
def recurseOption
    (step : Head -> Form (Tree × β) -> β) : Option Tree -> Option (Tree × β)
  | none => none
  | some tree => some (tree, recurse step tree)

end

/-- The child with its value. -/
def withValue
    (step : Head -> Form (Tree × β) -> β)
    (child : Tree) : Tree × β :=
  (child, recurse step child)

theorem recurseList_eq
    (step : Head -> Form (Tree × β) -> β)
    (list : List (RightPadded Tree)) :
    recurseList step list = list.map (·.map (withValue step)) := by
  induction list with
  | nil => simp [recurseList]
  | cons padded rest ih => simp [recurseList, ih, RightPadded.map, withValue]

theorem recurseOption_eq
    (step : Head -> Form (Tree × β) -> β)
    (child : Option Tree) :
    recurseOption step child = child.map (withValue step) := by
  cases child <;> simp [recurseOption, withValue]

theorem recurseForm_eq
    (step : Head -> Form (Tree × β) -> β)
    (form : Form Tree) :
    recurseForm step form = form.map (withValue step) := by
  cases form with
  | call receiver name arguments typeTag =>
      cases receiver <;>
        simp [recurseForm, Form.map, recurseList_eq, RightPadded.map, Container.map, withValue]
  | _ =>
      simp [recurseForm, Form.map, recurseList_eq, recurseOption_eq, RightPadded.map,
        LeftPadded.map, Container.map, withValue]

/-- The value of a node is the step on its children with their values. -/
theorem recurse_node
    (step : Head -> Form (Tree × β) -> β)
    (head : Head)
    (form : Form Tree) :
    recurse step (node head form) = step head (form.map (withValue step)) := by
  rw [recurse, recurseForm_eq]

/-- The number of nodes on the longest way down. -/
def height (tree : Tree) : Nat :=
  recurse (fun _ form => (form.children.map Prod.snd).foldr max 0 + 1) tree

/-- A child is lower than its parent. -/
theorem height_lt_of_mem_children
    {head : Head}
    {form : Form Tree}
    {child : Tree}
    (member : child ∈ form.children) :
    child.height < (node head form).height := by
  rw [height, height, recurse_node, Form.children_map, List.map_map]
  exact Nat.lt_succ_of_le (le_foldr_max (List.mem_map.2 ⟨child, member, rfl⟩))

/-- A property that passes from the children of a node to the node holds of all trees. -/
theorem induction
    {motive : Tree -> Prop}
    (step : forall head form, (forall child, child ∈ form.children -> motive child) ->
      motive (node head form))
    (tree : Tree) : motive tree := by
  suffices all : forall bound tree, tree.height < bound -> motive tree from
    all (tree.height + 1) tree (Nat.lt_succ_self _)
  intro bound
  induction bound with
  | zero => intro tree low; exact absurd low (Nat.not_lt_zero _)
  | succ bound ih =>
      intro tree low
      obtain ⟨head, form⟩ := tree
      exact step head form fun child member =>
        ih child (Nat.lt_of_lt_of_le (height_lt_of_mem_children member) (Nat.le_of_lt_succ low))

/-! ## Equality -/

/-- The same head, and forms that agree all the way down. -/
def same (tree : Tree) : Tree -> Bool :=
  recurse
    (fun head form other =>
      head = other.head && form.agree (fun pair child => pair.2 child) other.form)
    tree

theorem same_iff (left right : Tree) : left.same right = true ↔ left = right := by
  induction left using Tree.induction generalizing right with
  | step head form ih =>
      obtain ⟨head', form'⟩ := right
      have agrees := Form.agree_iff form form' ih
      rw [same, recurse_node]
      simp only [Form.agree_map, withValue, Bool.and_eq_true, decide_eq_true_eq, node.injEq]
      exact and_congr Iff.rfl agrees

/-- Trees are compared by the stamp of their root before anything else. -/
instance : DecidableEq Tree := fun left right =>
  if stamps : left.head.stamp = right.head.stamp then
    decidable_of_iff _ (same_iff left right)
  else
    isFalse fun equal => stamps (congrArg (fun tree => tree.head.stamp) equal)

end Tree
end Java
end Lossless
