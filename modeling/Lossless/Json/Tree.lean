import Lossless.Padding
import Lossless.Number
import Lossless.Path
import Lossless.Visit

/-!
# Data trees

A document of JSON with comments. The members of an object and the values of an array are right-padded: the
padding is the space before the comma or the closing delimiter. An empty list, and a list after a trailing
comma, ends with an empty element that carries the space before the closing delimiter.

`Form α` is the form of a node whose children are of type `α`. `Tree.recurse` builds a value from the
leaves up, and `Tree.induction` proves a property from the leaves up.
-/

namespace Lossless
namespace Json

/-- The value of a literal. -/
inductive Scalar
  | string (text : Text)
  | number (value : Binary64)
  | truth (value : Bool)
  | null
  deriving DecidableEq

namespace Scalar

/-- Equal as values; numbers are equal as numbers. -/
def agrees : Scalar -> Scalar -> Bool
  | number left, number right => left.agrees right
  | left, right => left = right

/-- A string between double quotes; quotes and backslashes get a backslash. -/
def quote (text : Text) : Text :=
  '"' :: (text.flatMap fun char =>
    if char = '\\' || char = '"' then ['\\', char] else [char]) ++ ['"']

/-- A value as it is written. -/
def render : Scalar -> Text
  | string text => quote text
  | number value => value.toText
  | truth true => "true".toList
  | truth false => "false".toList
  | null => "null".toList

end Scalar

/-- The kind of a node with its children. -/
inductive Form (α : Type)
  | document (source : SourceInfo) (value : α) (eof : Space)
  | object (members : List (RightPadded α))
  /-- A key, the space before the colon, and the value of the key. -/
  | member (key : RightPadded α) (value : α)
  | array (values : List (RightPadded α))
  /-- A literal as it is written, and what it stands for. -/
  | literal (source : Text) (value : Scalar)
  /-- A key without quotes. -/
  | identifier (name : Text)
  | empty

namespace Form

/-- The name of the kind. -/
def kindName : Form α -> Text
  | document .. => "Document".toList
  | object _ => "Object".toList
  | member .. => "Member".toList
  | array _ => "Array".toList
  | literal .. => "Literal".toList
  | identifier _ => "Identifier".toList
  | empty => "Empty".toList

/-- Change every child. -/
def map (change : α -> β) : Form α -> Form β
  | document source value eof => .document source (change value) eof
  | object members => .object (members.map (·.map change))
  | member key value => .member (key.map change) (change value)
  | array values => .array (values.map (·.map change))
  | literal source value => .literal source value
  | identifier name => .identifier name
  | empty => .empty

/-- The children in source order. -/
def children : Form α -> List α
  | document _ value _ => [value]
  | object members => RightPadded.elements members
  | member key value => [key.element, value]
  | array values => RightPadded.elements values
  | literal .. => []
  | identifier _ => []
  | empty => []

/-- Forms of one kind that are equal but for their children, and whose children agree pairwise. -/
def agree (relation : α -> β -> Bool) : Form α -> Form β -> Bool
  | document source value eof, document source' value' eof' =>
      source = source' && relation value value' && eof = eof'
  | object members, object members' => RightPadded.listAgreeBy relation members members'
  | member key value, member key' value' =>
      RightPadded.agreeBy relation key key' && relation value value'
  | array values, array values' => RightPadded.listAgreeBy relation values values'
  | literal source value, literal source' value' => source = source' && value = value'
  | identifier name, identifier name' => name = name'
  | empty, empty => true
  | _, _ => false

@[simp] theorem children_map
    (change : α -> β)
    (form : Form α) :
    (form.map change).children = form.children.map change := by
  cases form <;> simp [map, children]

/-- Agreement is equality when the relation on children is. -/
theorem agree_iff
    {relation : α -> α -> Bool}
    (left right : Form α)
    (decides : forall child, child ∈ left.children ->
      forall other, relation child other = true ↔ child = other) :
    left.agree relation right = true ↔ left = right := by
  cases left with
  | document source value eof =>
      cases right with
      | document source' value' eof' =>
          have atValue := decides value (by simp [children]) value'
          simp [agree, atValue, and_assoc]
      | _ => simp [agree]
  | object members =>
      cases right <;> simp [agree, RightPadded.listAgreeBy_iff _ _ decides]
  | member key value =>
      cases right with
      | member key' value' =>
          have atKey := RightPadded.agreeBy_iff key key'
            (decides key.element (by simp [children]) key'.element)
          have atValue := decides value (by simp [children]) value'
          simp [agree, atKey, atValue]
      | _ => simp [agree]
  | array values =>
      cases right <;> simp [agree, RightPadded.listAgreeBy_iff _ _ decides]
  | literal source value => cases right <;> simp [agree]
  | identifier name => cases right <;> simp [agree]
  | empty => cases right <;> simp [agree]

instance [DecidableEq α] : DecidableEq (Form α) := fun left right =>
  decidable_of_iff (left.agree (fun child other => child = other) right)
    (agree_iff left right fun _ _ _ => decide_eq_true_iff)

/-- Changing the children of the left form is changing what they are compared by. -/
theorem agree_map
    (relation : β -> γ -> Bool)
    (change : α -> β)
    (left : Form α)
    (right : Form γ) :
    (left.map change).agree relation right =
      left.agree (fun element => relation (change element)) right := by
  cases left <;> cases right <;> first | rfl | simp [map, agree, RightPadded.listAgreeBy_map]

end Form

/-- A data tree. -/
inductive Tree
  | node (head : Head) (form : Form Tree)

namespace Tree

def head : Tree -> Head
  | node head _ => head

def form : Tree -> Form Tree
  | node _ form => form

/-- The children in source order. -/
def children (tree : Tree) : List Tree :=
  tree.form.children

/-! ## Recursion and induction -/

mutual

/-- Build a value from the leaves up; each child comes with its own value. -/
def recurse (step : Head -> Form (Tree × β) -> β) : Tree -> β
  | node head form => step head (recurseForm step form)

/-- Build the values of the children of a form. -/
def recurseForm (step : Head -> Form (Tree × β) -> β) : Form Tree -> Form (Tree × β)
  | .document source value eof => .document source (value, recurse step value) eof
  | .object members => .object (recurseList step members)
  | .member ⟨key, after, markers⟩ value =>
      .member ⟨(key, recurse step key), after, markers⟩ (value, recurse step value)
  | .array values => .array (recurseList step values)
  | .literal source value => .literal source value
  | .identifier name => .identifier name
  | .empty => .empty

/-- Build the values of a padded list. -/
def recurseList
    (step : Head -> Form (Tree × β) -> β) :
    List (RightPadded Tree) -> List (RightPadded (Tree × β))
  | [] => []
  | ⟨element, after, markers⟩ :: rest =>
      ⟨(element, recurse step element), after, markers⟩ :: recurseList step rest

end

/-- The child with its value. -/
def withValue
    (step : Head -> Form (Tree × β) -> β)
    (child : Tree) : Tree × β :=
  (child, recurse step child)

theorem recurseList_eq
    (step : Head -> Form (Tree × β) -> β)
    (list : List (RightPadded Tree)) :
    recurseList step list = list.map (·.map (withValue step)) := by
  induction list with
  | nil => simp [recurseList]
  | cons padded rest ih => simp [recurseList, ih, RightPadded.map, withValue]

/-- The value of a node is the step on its children with their values. -/
theorem recurse_node
    (step : Head -> Form (Tree × β) -> β)
    (head : Head)
    (form : Form Tree) :
    recurse step (node head form) = step head (form.map (withValue step)) := by
  cases form <;>
    simp [recurse, recurseForm, Form.map, recurseList_eq, RightPadded.map, withValue]

/-- The number of nodes on the longest way down. -/
def height (tree : Tree) : Nat :=
  recurse (fun _ form => (form.children.map Prod.snd).foldr max 0 + 1) tree

/-- A child is lower than its parent. -/
theorem height_lt_of_mem_children
    {head : Head}
    {form : Form Tree}
    {child : Tree}
    (member : child ∈ form.children) :
    child.height < (node head form).height := by
  rw [height, height, recurse_node, Form.children_map, List.map_map]
  exact Nat.lt_succ_of_le (le_foldr_max (List.mem_map.2 ⟨child, member, rfl⟩))

/-- A property that passes from the children of a node to the node holds of all trees. -/
theorem induction
    {motive : Tree -> Prop}
    (step : forall head form, (forall child, child ∈ form.children -> motive child) ->
      motive (node head form))
    (tree : Tree) : motive tree := by
  suffices all : forall bound tree, tree.height < bound -> motive tree from
    all (tree.height + 1) tree (Nat.lt_succ_self _)
  intro bound
  induction bound with
  | zero => intro tree low; exact absurd low (Nat.not_lt_zero _)
  | succ bound ih =>
      intro tree low
      obtain ⟨head, form⟩ := tree
      exact step head form fun child member =>
        ih child (Nat.lt_of_lt_of_le (height_lt_of_mem_children member) (Nat.le_of_lt_succ low))

/-! ## Equality -/

/-- The same head, and forms that agree all the way down. -/
def same (tree : Tree) : Tree -> Bool :=
  recurse
    (fun head form other =>
      head = other.head && form.agree (fun pair child => pair.2 child) other.form)
    tree

theorem same_iff (left right : Tree) : left.same right = true ↔ left = right := by
  induction left using Tree.induction generalizing right with
  | step head form ih =>
      obtain ⟨head', form'⟩ := right
      have agrees := Form.agree_iff form form' ih
      rw [same, recurse_node]
      simp only [Form.agree_map, withValue, Bool.and_eq_true, decide_eq_true_eq, node.injEq]
      exact and_congr Iff.rfl agrees

/-- Trees are compared by the stamp of their root before anything else. -/
instance : DecidableEq Tree := fun left right =>
  if stamps : left.head.stamp = right.head.stamp then
    decidable_of_iff _ (same_iff left right)
  else
    isFalse fun equal => stamps (congrArg (fun tree => tree.head.stamp) equal)

end Tree
end Json
end Lossless
