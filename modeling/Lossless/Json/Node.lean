import Lossless.Json.Tree

/-!
# Making and changing nodes

New nodes have a fresh identity and no formatting. Changing a node keeps its identifier, and gives back the
same cell when nothing changes.
-/

namespace Lossless
namespace Json
namespace Tree

/-- The identifier of a node. -/
def id (tree : Tree) : Stamp := tree.head.id

/-- The space before a node. -/
def leading (tree : Tree) : Space := tree.head.leading

/-- The markers of a node. -/
def markers (tree : Tree) : Markers Space := tree.head.markers

/-- The name of the kind of a node. -/
def kindName (tree : Tree) : Text := tree.form.kindName

/-- The name that a key stands for; a key is a string or a name without quotes. -/
def keyName? (key : Tree) : Option Text :=
  match key.form with
  | .identifier name => some name
  | .literal _ (.string text) => some text
  | _ => none

/-- The text of a name or of a literal, and the key of a member. -/
def text (tree : Tree) : Text :=
  match tree.form with
  | .identifier name => name
  | .literal source _ => source
  | .member key _ => key.element.keyName?.getD []
  | _ => []

/-- The node is a document. -/
def isSource (tree : Tree) : Bool :=
  match tree.form with
  | .document .. => true
  | _ => false

instance : VisitNode Tree where
  id := id
  kindName := kindName
  isSource := isSource

/-! ## Changing a node -/

/-- The node with another leading space, other markers and another form. -/
def revise
    (tree : Tree)
    (leading : Space)
    (markers : Markers Space)
    (form : Form Tree) : Tree :=
  if leading = tree.leading ∧ markers = tree.markers ∧ form = tree.form then tree
  else node ⟨.pending, tree.id, leading, markers⟩ form

@[simp] theorem revise_self (tree : Tree) :
    tree.revise tree.leading tree.markers tree.form = tree := by
  simp [revise]

@[simp] theorem id_revise
    (tree : Tree)
    (leading : Space)
    (markers : Markers Space)
    (form : Form Tree) :
    (tree.revise leading markers form).id = tree.id := by
  unfold revise
  split <;> rfl

@[simp] theorem form_revise
    (tree : Tree)
    (leading : Space)
    (markers : Markers Space)
    (form : Form Tree) :
    (tree.revise leading markers form).form = form := by
  unfold revise
  split
  · next same => exact same.2.2.symm
  · rfl

/-- The node with another leading space. -/
def withLeading
    (tree : Tree)
    (leading : Space) : Tree :=
  tree.revise leading tree.markers tree.form

/-- The node with other markers. -/
def withMarkers
    (tree : Tree)
    (markers : Markers Space) : Tree :=
  tree.revise tree.leading markers tree.form

/-- The node with another form. -/
def withForm
    (tree : Tree)
    (form : Form Tree) : Tree :=
  tree.revise tree.leading tree.markers form

/--
The literal with another value, written anew; an equal value changes nothing. What is not a number equals
no value, not even itself.
-/
def withScalar
    (tree : Tree)
    (value : Scalar) : Tree :=
  match tree.form with
  | .literal _ old =>
      if value.agrees old then tree
      else node { tree.head with stamp := .pending } (.literal value.render value)
  | _ => tree

/-- Change the text of a name or of a literal. -/
def rename
    (tree : Tree)
    (text : Text) : Tree :=
  match tree.form with
  | .identifier _ => tree.withForm (.identifier text)
  | .literal .. => tree.withScalar (.string text)
  | _ => tree

/-- The member with its key renamed. -/
def renameKey
    (tree : Tree)
    (text : Text) : Tree :=
  match tree.form with
  | .member key value =>
      tree.withForm (.member { key with element := key.element.rename text } value)
  | _ => tree

/-- The member with another value. -/
def withMemberValue
    (tree value : Tree) : Tree :=
  match tree.form with
  | .member key _ => tree.withForm (.member key value)
  | _ => tree

/-! ## New nodes -/

/-- A new node without formatting. -/
def build (form : Form Tree) : Tree := node .build form

/-- A new node with a space before it. -/
def buildAfter
    (leading : Space)
    (form : Form Tree) : Tree :=
  node { Head.build with leading } form

/-- A new literal. -/
def literal (value : Scalar) : Tree := build (.literal value.render value)

instance : Inhabited Tree := ⟨build .empty⟩

/-! ## Looking at a tree -/

/-- A node and the nodes below it, every one before those below it. -/
def nodes (tree : Tree) : List Tree :=
  tree :: recurse (fun _ form => form.children.flatMap fun (child, below) => child :: below) tree

theorem nodes_node
    (head : Head)
    (form : Form Tree) :
    (node head form).nodes = node head form :: form.children.flatMap nodes := by
  simp only [nodes, recurse_node, Form.children_map, List.flatMap_map]
  rfl

/-- The elements of an object or an array. -/
def elements? (tree : Tree) : Option (List (RightPadded Tree)) :=
  match tree.form with
  | .object members => some members
  | .array values => some values
  | _ => none

/-- Put an edited list of elements into an object or an array, with the padding of those there. -/
def withElements
    (tree : Tree)
    (list : List Tree) : Except Error Tree := do
  match tree.form with
  | .object members => return tree.withForm (.object (<- RightPadded.withElements members list))
  | .array values => return tree.withForm (.array (<- RightPadded.withElements values list))
  | _ => return tree

/-- The first member of an object with a key. -/
def member?
    (tree : Tree)
    (name : Text) : Option Tree :=
  match tree.form with
  | .object members =>
      (RightPadded.elements members).find? fun element =>
        match element.form with
        | .member key _ => key.element.keyName? = some name
        | _ => false
  | _ => none

/-- The value of a document or of a member. -/
def value? (tree : Tree) : Option Tree :=
  match tree.form with
  | .document _ value _ => some value
  | .member _ value => some value
  | _ => none

end Tree

/-! ## Numbering -/

/-- Number the spaces and children of a form in source order. -/
def Form.settle (settleChild : α -> Numbering β) : Form α -> Numbering (Form β)
  | document source value eof =>
      return .document source (<- settleChild value) (<- eof.settle)
  | object members => return .object (<- members.mapM (RightPadded.settle settleChild))
  | member key value => return .member (<- key.settle settleChild) (<- settleChild value)
  | array values => return .array (<- values.mapM (RightPadded.settle settleChild))
  | literal source value => return .literal source value
  | identifier name => return .identifier name
  | empty => return .empty

/-- Number every cell and node of a tree. -/
def Tree.settle (tree : Tree) : Numbering Tree :=
  Tree.recurse (fun head form => do return .node (<- head.settle) (<- form.settle Prod.snd)) tree

end Json
end Lossless
