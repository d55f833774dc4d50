import Lossless.Json.Node

/-!
# Visitors of data trees

By default a visitor walks a node in source order: the space before it, its markers, and then each child.
A padding gets a frame of its own. A deleted element of a list disappears with its padding; when a document
loses its value, or a member its key or its value, the node is deleted too.
-/

namespace Lossless
namespace Json

/-- The padding that a frame stands for. -/
inductive PaddingFrame
  | element
  deriving DecidableEq

instance : Named PaddingFrame := ⟨fun _ => "RightPadded".toList⟩

/-- A step of a visit of data trees. -/
abbrev TreeVisit (σ γ : Type) := VisitM Tree PaddingFrame σ γ

/-- A visitor of data trees that carries a state `σ` and shares a state `γ`. -/
structure Visitor (σ γ : Type) where
  space : Space -> TreeVisit σ γ Space := pure
  marker : Marker Space -> TreeVisit σ γ (Marker Space) := pure
  accepts : Tree -> TreeVisit σ γ Bool := fun _ => pure true
  acceptsSource : Tree -> TreeVisit σ γ Bool := fun _ => pure true
  before : Tree -> TreeVisit σ γ (Option Tree) := fun tree => pure (some tree)
  after : Tree -> TreeVisit σ γ (Option Tree) := fun tree => pure (some tree)
  /-- Visits a node, given the walk through its parts. -/
  dispatch : (Tree -> TreeVisit σ γ (Option Tree)) -> Tree -> TreeVisit σ γ (Option Tree) :=
    fun descend tree => descend tree
  /-- How deep a visit of a node can go below it. -/
  depthBound : σ -> Tree -> Nat := fun _ tree => tree.height
  /-- How many times a queued visitor can queue a visitor in turn. -/
  generations : σ -> Nat := fun _ => 0

namespace Visitor

variable (visitor : Visitor σ γ)
variable (visit : Tree -> TreeVisit σ γ (Option Tree))

/-- Visit an element in a frame of its own, and then the space and the markers beside it. -/
def rightPadded
    (padded : RightPadded Tree) : TreeVisit σ γ (Option (RightPadded Tree)) := do
  let some element <- VisitM.within (.padding .element) (visit padded.element)
    | return none
  let after <- visitor.space padded.after
  let markers <- visitMarkersWith visitor.marker padded.markers
  return some ⟨element, after, markers⟩

/-- Visit the elements of a list in order; deleted ones disappear. -/
def rightPaddedList :
    List (RightPadded Tree) -> TreeVisit σ γ (List (RightPadded Tree))
  | [] => pure []
  | padded :: rest => do
      let first <- visitor.rightPadded visit padded
      let others <- rightPaddedList rest
      return first.toList ++ others

/-- Visit the parts of a form in source order. -/
def visitForm : Form Tree -> TreeVisit σ γ (Option (Form Tree))
  | .document source value eof => do
      let some value <- visit value
        | return none
      let eof <- visitor.space eof
      return some (.document source value eof)
  | .object members => do
      let members <- visitor.rightPaddedList visit members
      return some (.object members)
  | .member key value => do
      let some key <- visitor.rightPadded visit key
        | return none
      let some value <- visit value
        | return none
      return some (.member key value)
  | .array values => do
      let values <- visitor.rightPaddedList visit values
      return some (.array values)
  | .literal source value => return some (.literal source value)
  | .identifier name => return some (.identifier name)
  | .empty => return some .empty

/-- Walk through a node: the space before it, its markers, and its parts. -/
def descend (tree : Tree) : TreeVisit σ γ (Option Tree) := do
  let leading <- visitor.space tree.leading
  let markers <- visitMarkersWith visitor.marker tree.markers
  let some form <- visitor.visitForm visit tree.form
    | return none
  return some (tree.revise leading markers form)

/-- The visitor as a traversal. -/
def traversal (visitor : Visitor σ γ) : Traversal Tree PaddingFrame σ γ where
  accepts := visitor.accepts
  acceptsSource := visitor.acceptsSource
  before := visitor.before
  after := visitor.after
  dispatch := fun visit => visitor.dispatch (visitor.descend visit)
  depthBound := visitor.depthBound
  generations := visitor.generations

/-- Visit a tree. -/
def run
    (visitor : Visitor σ γ)
    (tree : Tree) : TreeVisit σ γ (Option Tree) :=
  visitor.traversal.visit tree

end Visitor
end Json
end Lossless
