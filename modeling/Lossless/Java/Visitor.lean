import Lossless.Java.Pieces

/-!
# Visitors of syntax trees

A visitor has a hook for spaces, one for markers, and the hooks of every traversal. By default it walks a
node in source order: the space before it, its markers, and then each child. Paddings and lists get frames
of their own, so that a hook can tell where a space stands.

A deleted statement or list element disappears with its padding, and a deleted optional child becomes
absent. When a child that its node cannot do without is deleted, the node is deleted too.
-/

namespace Lossless
namespace Java

/-- The padding or list that a frame stands for. -/
inductive PaddingFrame
  | element (place : ElementPlace)
  | operand (place : OperandPlace)
  | container (place : ContainerPlace)
  deriving DecidableEq

namespace PaddingFrame

/-- The name of the kind of a frame. -/
def kindName : PaddingFrame -> Text
  | element _ => "RightPadded".toList
  | operand _ => "LeftPadded".toList
  | container _ => "Container".toList

instance : Named PaddingFrame := ⟨kindName⟩

def element? : PaddingFrame -> Option ElementPlace
  | element place => some place
  | _ => none

def container? : PaddingFrame -> Option ContainerPlace
  | container place => some place
  | _ => none

end PaddingFrame

/-- What a frame of a traversal of syntax trees stands for. -/
abbrev TreeFrame := FrameValue Tree PaddingFrame

/-- The frames of a traversal of syntax trees. -/
abbrev TreeCursor := Cursor TreeFrame

/-- A step of a visit of syntax trees. -/
abbrev TreeVisit (σ γ : Type) := VisitM Tree PaddingFrame σ γ

/-- The dialect of the unit around a cursor; Java when there is none. -/
def enclosingDialect (cursor : TreeCursor) : Dialect :=
  ((cursor.firstEnclosing? Tree.isSource).bind Tree.dialect?).getD .java

/-- The hooks for what is no node. -/
structure GapVisitor (σ γ : Type) where
  space : SpacePlace -> Space -> TreeVisit σ γ Space := fun _ space => pure space
  marker : Marker Space -> TreeVisit σ γ (Marker Space) := pure

namespace GapVisitor

variable (visitor : GapVisitor σ γ)
variable (visit : Tree -> TreeVisit σ γ (Option Tree))

/-- Visit the markers of a set. -/
def markers (markers : Markers Space) : TreeVisit σ γ (Markers Space) :=
  visitMarkersWith visitor.marker markers

/-- Visit an element in a frame of its own, and then the space and the markers beside it. -/
def rightPadded
    (place : ElementPlace)
    (padded : RightPadded Tree) : TreeVisit σ γ (Option (RightPadded Tree)) := do
  let some element <- VisitM.within (.padding (.element place)) (visit padded.element)
    | return none
  let after <- visitor.space place.after padded.after
  let markers <- visitor.markers padded.markers
  return some ⟨element, after, markers⟩

/-- Visit the elements of a list in order; deleted ones disappear. -/
def rightPaddedList
    (place : ElementPlace) : List (RightPadded Tree) -> TreeVisit σ γ (List (RightPadded Tree))
  | [] => pure []
  | padded :: rest => do
      let first <- visitor.rightPadded visit place padded
      let others <- rightPaddedList place rest
      return first.toList ++ others

/-- Visit the space before an element and the element in one frame, and then the markers. -/
def leftPadded
    (place : OperandPlace)
    (padded : LeftPadded Tree) : TreeVisit σ γ (Option (LeftPadded Tree)) := do
  let (before, element) <- VisitM.within (.padding (.operand place)) do
    let before <- visitor.space place.before padded.before
    return (before, <- visit padded.element)
  let some element := element
    | return none
  let markers <- visitor.markers padded.markers
  return some ⟨before, element, markers⟩

/-- Visit the space before an operator, which is no node. Its markers come even after a failure. -/
def operator (padded : LeftPadded Operator) : TreeVisit σ γ (LeftPadded Operator) := do
  let before <- VisitM.attempt <| VisitM.within (.padding (.operand .binaryOperator))
    (visitor.space OperandPlace.binaryOperator.before padded.before)
  let markers <- visitor.markers padded.markers
  return ⟨<- VisitM.ofExcept before, padded.element, markers⟩

/-- Visit a delimited list in a frame of its own, and then its markers. -/
def container
    (place : ContainerPlace)
    (list : Container Tree) : TreeVisit σ γ (Container Tree) := do
  let (before, padded) <- VisitM.within (.padding (.container place)) do
    let before <- visitor.space place.before list.before
    return (before, <- visitor.rightPaddedList visit place.element list.padded)
  let markers <- visitor.markers list.markers
  return ⟨before, padded, markers⟩

end GapVisitor

/-- A visitor of syntax trees that carries a state `σ` and shares a state `γ`. -/
structure Visitor (σ γ : Type) extends GapVisitor σ γ where
  accepts : Tree -> TreeVisit σ γ Bool := fun _ => pure true
  acceptsSource : Tree -> TreeVisit σ γ Bool := fun _ => pure true
  before : Tree -> TreeVisit σ γ (Option Tree) := fun tree => pure (some tree)
  after : Tree -> TreeVisit σ γ (Option Tree) := fun tree => pure (some tree)
  /-- Visits a delimited list, given the visit of a child. -/
  visitContainer :
    (Tree -> TreeVisit σ γ (Option Tree)) ->
      ContainerPlace -> Container Tree -> TreeVisit σ γ (Container Tree) :=
    fun visit => GapVisitor.container ⟨space, marker⟩ visit
  /-- Visits a node, given the walk through its parts. -/
  dispatch : (Tree -> TreeVisit σ γ (Option Tree)) -> Tree -> TreeVisit σ γ (Option Tree) :=
    fun descend tree => descend tree
  /-- How deep a visit of a node can go below it. -/
  depthBound : σ -> Tree -> Nat := fun _ tree => tree.height
  /-- How many times a queued visitor can queue a visitor in turn. -/
  generations : σ -> Nat := fun _ => 0

namespace Visitor

variable (visitor : Visitor σ γ)
variable (visit : Tree -> TreeVisit σ γ (Option Tree))

/-- Visit a child that may be absent. -/
def visitOption : Option Tree -> TreeVisit σ γ (Option Tree)
  | none => pure none
  | some tree => visit tree

/-- Visit the receiver of a call. -/
def visitReceiver :
    Option (RightPadded Tree) -> TreeVisit σ γ (Option (RightPadded Tree))
  | none => pure none
  | some padded => visitor.rightPadded visit .methodSelect padded

/-- Visit the parts of a form in source order. -/
def visitForm : Form Tree -> TreeVisit σ γ (Option (Form Tree))
  | .compilationUnit dialect source statements eof => do
      let statements <- visitor.rightPaddedList visit .compilationUnitStatement statements
      let eof <- visitor.space .compilationUnitEof eof
      return some (.compilationUnit dialect source statements eof)
  | .block statements closing => do
      let statements <- visitor.rightPaddedList visit .blockStatement statements
      let closing <- visitor.space .blockEnd closing
      return some (.block statements closing)
  | .conditional condition consequence alternative => do
      let some condition <- visit condition
        | return none
      let some consequence <- visitor.rightPadded visit .ifThen consequence
        | return none
      let alternative <- visitOption visit alternative
      return some (.conditional condition consequence alternative)
  | .otherwise body => do
      let some body <- visitor.rightPadded visit .elseBody body
        | return none
      return some (.otherwise body)
  | .returns value => do
      let value <- visitOption visit value
      return some (.returns value)
  | .assignment target value typeTag => do
      let some target <- visit target
        | return none
      let some value <- visitor.leftPadded visit .assignmentValue value
        | return none
      return some (.assignment target value typeTag)
  | .binary left operator right typeTag => do
      let some left <- visit left
        | return none
      let operator <- visitor.operator operator
      let some right <- visit right
        | return none
      return some (.binary left operator right typeTag)
  | .identifier name typeTag => return some (.identifier name typeTag)
  | .literal source typeTag => return some (.literal source typeTag)
  | .fieldAccess target name typeTag => do
      let some target <- visit target
        | return none
      let some name <- visitor.leftPadded visit .fieldAccessName name
        | return none
      return some (.fieldAccess target name typeTag)
  | .call receiver name arguments typeTag => do
      let receiver <- visitor.visitReceiver visit receiver
      let some name <- visit name
        | return none
      let arguments <- visitor.visitContainer visit .methodInvocationArguments arguments
      return some (.call receiver name arguments typeTag)
  | .declaration returnType name parameters body => do
      let returnType <- visitOption visit returnType
      let some name <- visit name
        | return none
      let parameters <- visitor.visitContainer visit .methodDeclarationParameters parameters
      let body <- visitOption visit body
      return some (.declaration returnType name parameters body)
  | .parentheses inner => do
      let some inner <- visitor.rightPadded visit .parentheses inner
        | return none
      return some (.parentheses inner)
  | .collection kind elements typeTag => do
      let elements <- visitor.visitContainer visit .collectionElements elements
      return some (.collection kind elements typeTag)
  | .empty => return some .empty
  | .unknown text => return some (.unknown text)

/-- Walk through a node: the space before it, its markers, and its parts. -/
def descend (tree : Tree) : TreeVisit σ γ (Option Tree) := do
  let leading <- visitor.space tree.form.leadingPlace tree.leading
  let markers <- visitor.markers tree.markers
  let some form <- visitor.visitForm visit tree.form
    | return none
  return some (tree.revise leading markers form)

/-- The visitor as a traversal. -/
def traversal (visitor : Visitor σ γ) : Traversal Tree PaddingFrame σ γ where
  accepts := visitor.accepts
  acceptsSource := visitor.acceptsSource
  before := visitor.before
  after := visitor.after
  dispatch := fun visit => visitor.dispatch (visitor.descend visit)
  depthBound := visitor.depthBound
  generations := visitor.generations

/-- Visit a tree. -/
def run
    (visitor : Visitor σ γ)
    (tree : Tree) : TreeVisit σ γ (Option Tree) :=
  visitor.traversal.visit tree

end Visitor
end Java
end Lossless
