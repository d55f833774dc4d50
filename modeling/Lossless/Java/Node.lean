import Lossless.Java.Tree

/-!
# Making and changing nodes

New nodes have a fresh identity and no formatting. Changing a node keeps its identifier, and gives back the
same cell when nothing changes.
-/

namespace Lossless
namespace Java
namespace Tree

/-- The identifier of a node. -/
def id (tree : Tree) : Stamp := tree.head.id

/-- The space before a node. -/
def leading (tree : Tree) : Space := tree.head.leading

/-- The markers of a node. -/
def markers (tree : Tree) : Markers Space := tree.head.markers

/-- The name of the kind of a node. -/
def kindName (tree : Tree) : Text := tree.form.kindName

/-- The text of a name, of a literal or of unknown source. -/
def text (tree : Tree) : Text := tree.form.text

/-- The node is a compilation unit. -/
def isSource (tree : Tree) : Bool :=
  match tree.form with
  | .compilationUnit .. => true
  | _ => false

instance : VisitNode Tree where
  id := id
  kindName := kindName
  isSource := isSource

/-- The dialect of a compilation unit. -/
def dialect? (tree : Tree) : Option Dialect :=
  match tree.form with
  | .compilationUnit dialect .. => some dialect
  | _ => none

/-- The dialect that a tree is printed in by itself. -/
def dialect (tree : Tree) : Dialect :=
  tree.dialect?.getD .java

/-! ## Changing a node -/

/-- The node with another leading space, other markers and another form. -/
def revise
    (tree : Tree)
    (leading : Space)
    (markers : Markers Space)
    (form : Form Tree) : Tree :=
  if leading = tree.leading ∧ markers = tree.markers ∧ form = tree.form then tree
  else node ⟨.pending, tree.id, leading, markers⟩ form

@[simp] theorem revise_self (tree : Tree) :
    tree.revise tree.leading tree.markers tree.form = tree := by
  simp [revise]

@[simp] theorem leading_revise
    (tree : Tree)
    (leading : Space)
    (markers : Markers Space)
    (form : Form Tree) :
    (tree.revise leading markers form).leading = leading := by
  unfold revise
  split
  · next same => exact same.1.symm
  · rfl

@[simp] theorem markers_revise
    (tree : Tree)
    (leading : Space)
    (markers : Markers Space)
    (form : Form Tree) :
    (tree.revise leading markers form).markers = markers := by
  unfold revise
  split
  · next same => exact same.2.1.symm
  · rfl

@[simp] theorem form_revise
    (tree : Tree)
    (leading : Space)
    (markers : Markers Space)
    (form : Form Tree) :
    (tree.revise leading markers form).form = form := by
  unfold revise
  split
  · next same => exact same.2.2.symm
  · rfl

@[simp] theorem id_revise
    (tree : Tree)
    (leading : Space)
    (markers : Markers Space)
    (form : Form Tree) :
    (tree.revise leading markers form).id = tree.id := by
  unfold revise
  split <;> rfl

/-- The node with another leading space. -/
def withLeading
    (tree : Tree)
    (leading : Space) : Tree :=
  tree.revise leading tree.markers tree.form

@[simp] theorem leading_withLeading
    (tree : Tree)
    (space : Space) :
    (tree.withLeading space).leading = space :=
  leading_revise tree space tree.markers tree.form

@[simp] theorem form_withLeading
    (tree : Tree)
    (space : Space) :
    (tree.withLeading space).form = tree.form :=
  form_revise tree space tree.markers tree.form

@[simp] theorem withLeading_self (tree : Tree) : tree.withLeading tree.leading = tree :=
  revise_self tree

/-- The node with other markers. -/
def withMarkers
    (tree : Tree)
    (markers : Markers Space) : Tree :=
  tree.revise tree.leading markers tree.form

/-- The node with another form. -/
def withForm
    (tree : Tree)
    (form : Form Tree) : Tree :=
  tree.revise tree.leading tree.markers form

/-- The node with another type annotation, if its kind can have one. -/
def withTypeTag
    (tree : Tree)
    (tag : Option Text) : Tree :=
  tree.withForm (tree.form.withTypeTag tag)

/-- Change the text of a name, of a literal or of unknown source, or the path of a unit. -/
def rename
    (tree : Tree)
    (text : Text) : Tree :=
  match tree.form with
  | .identifier _ typeTag => tree.withForm (.identifier text typeTag)
  | .literal _ typeTag => tree.withForm (.literal text typeTag)
  | .unknown _ => tree.withForm (.unknown text)
  | .compilationUnit dialect source statements eof =>
      if source.path.agrees ⟨text⟩ then tree
      else tree.withForm (.compilationUnit dialect { source with path := ⟨text⟩ } statements eof)
  | _ => tree

/-! ## New nodes -/

/-- A new node without formatting. -/
def build (form : Form Tree) : Tree := node .build form

/-- A new name. -/
def identifier (name : Text) : Tree := build (.identifier name none)

/-- A new literal. -/
def literal (source : Text) : Tree := build (.literal source none)

/-- A new empty node. -/
def empty : Tree := build .empty

instance : Inhabited Tree := ⟨empty⟩

/-- The elements without padding; for no elements, one empty node. -/
def argumentsOf : List Tree -> Container Tree
  | [] => ⟨.empty, [.build empty], .empty⟩
  | elements => ⟨.empty, elements.map .build, .empty⟩

/-! ## Looking at a tree -/

/-- Walk the receivers down to the start of a chain of calls. -/
def chainRoot : Tree -> Tree
  | node _ (.call (some ⟨receiver, _, _⟩) _ _ _) => chainRoot receiver
  | tree => tree

/-- The nodes below a node, every one before those below it. -/
def descendants (tree : Tree) : List Tree :=
  recurse (fun _ form => form.children.flatMap fun (child, below) => child :: below) tree

/-- A node and the nodes below it, every one before those below it. -/
def nodes (tree : Tree) : List Tree :=
  tree :: tree.descendants

theorem nodes_node
    (head : Head)
    (form : Form Tree) :
    (node head form).nodes = node head form :: form.children.flatMap nodes := by
  simp only [nodes, descendants, recurse_node, Form.children_map, List.flatMap_map]
  rfl

/-- The space before the first tree of a list. -/
def firstLeading (trees : List Tree) : Space :=
  match trees with
  | [] => .empty
  | first :: _ => first.leading

/-- The list with another space before its first tree. -/
def withFirstLeading
    (leading : Space) : List Tree -> List Tree
  | [] => []
  | first :: rest => first.withLeading leading :: rest

/-! ## Lists of elements -/

/-- The elements of a node that has a list of them. -/
def elements? (tree : Tree) : Option (List (RightPadded Tree)) :=
  match tree.form with
  | .compilationUnit _ _ statements _ => some statements
  | .block statements _ => some statements
  | .call _ _ arguments _ => some arguments.padded
  | .declaration _ _ parameters _ => some parameters.padded
  | .collection _ elements _ => some elements.padded
  | _ => none

/-- Put other padded elements into a node that has a list of them. -/
def withPadded
    (tree : Tree)
    (padded : List (RightPadded Tree)) : Tree :=
  match tree.form with
  | .compilationUnit dialect source _ eof =>
      tree.withForm (.compilationUnit dialect source padded eof)
  | .block _ closing => tree.withForm (.block padded closing)
  | .call receiver name arguments typeTag =>
      tree.withForm (.call receiver name { arguments with padded } typeTag)
  | .declaration returnType name parameters body =>
      tree.withForm (.declaration returnType name { parameters with padded } body)
  | .collection kind elements typeTag =>
      tree.withForm (.collection kind { elements with padded } typeTag)
  | _ => tree

/-- Put an edited list of elements into a node, with the padding of those that were there. -/
def withElements
    (tree : Tree)
    (list : List Tree) : Except Error Tree := do
  match tree.elements? with
  | none => return tree
  | some padded => return tree.withPadded (<- RightPadded.withElements padded list)

end Tree

/-! ## Numbering -/

namespace Form

/-- Number a child that may be absent. -/
def settleOption
    (settleChild : α -> Numbering β) : Option α -> Numbering (Option β)
  | none => pure none
  | some child => return some (<- settleChild child)

/-- Number the spaces and children of a form in source order. -/
def settle (settleChild : α -> Numbering β) : Form α -> Numbering (Form β)
  | compilationUnit dialect source statements eof =>
      return .compilationUnit dialect source (<- statements.mapM (RightPadded.settle settleChild))
        (<- eof.settle)
  | block statements closing =>
      return .block (<- statements.mapM (RightPadded.settle settleChild)) (<- closing.settle)
  | conditional condition consequence alternative =>
      return .conditional (<- settleChild condition) (<- consequence.settle settleChild)
        (<- settleOption settleChild alternative)
  | otherwise body => return .otherwise (<- body.settle settleChild)
  | returns value => return .returns (<- settleOption settleChild value)
  | assignment target value typeTag =>
      return .assignment (<- settleChild target) (<- value.settle settleChild) typeTag
  | binary left operator right typeTag =>
      return .binary (<- settleChild left) (<- operator.settle pure)
        (<- settleChild right) typeTag
  | identifier name typeTag => return .identifier name typeTag
  | literal source typeTag => return .literal source typeTag
  | fieldAccess target name typeTag =>
      return .fieldAccess (<- settleChild target) (<- name.settle settleChild) typeTag
  | call receiver name arguments typeTag =>
      return .call (<- settleOption (RightPadded.settle settleChild) receiver) (<- settleChild name)
        (<- arguments.settle settleChild) typeTag
  | declaration returnType name parameters body =>
      return .declaration (<- settleOption settleChild returnType) (<- settleChild name)
        (<- parameters.settle settleChild) (<- settleOption settleChild body)
  | parentheses inner => return .parentheses (<- inner.settle settleChild)
  | collection kind elements typeTag =>
      return .collection kind (<- elements.settle settleChild) typeTag
  | empty => return .empty
  | unknown text => return .unknown text

end Form

/-- Number every cell and node of a tree. -/
def Tree.settle (tree : Tree) : Numbering Tree :=
  Tree.recurse (fun head form => do return .node (<- head.settle) (<- form.settle Prod.snd)) tree

end Java
end Lossless
