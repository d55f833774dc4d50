import Lossless.Cursor
import Lossless.Padding

/-!
# Visits

A visit walks a tree with a cursor and rebuilds it on the way. `Traversal.enter` is one step: push a frame
for the node, ask whether the node is wanted, run the hook before it, dispatch on the node, run the hook
after it, and go back to the frame from before. A hook or a dispatch answers with a node, with no node
(the node is deleted), or fails; a failure gets the path of the frames at which it came up.

When the outermost visit of a run has a result, the visitors that were queued during the run go over it in
the order of queueing, each with its own state, its own stop and its own queue.

A dispatch can hand a node on that is no part of the tree, so nothing bounds the depth of a visit by
itself. A traversal states a bound; a node below it stays as it is.
-/

namespace Lossless

/-- Whether a visitor still changes anything. -/
inductive StopAfter
  | never
  /-- Up to the visit of the node with this identifier. -/
  | pending (target : Stamp)
  /-- The target has been visited; every further visit hands the node on as it is. -/
  | stopped
  deriving DecidableEq

namespace StopAfter

/-- Stop after a node, if there is one. -/
def ofTarget : Option Stamp -> StopAfter
  | none => never
  | some target => pending target

def isStopped : StopAfter -> Bool
  | stopped => true
  | _ => false

/-- Note that a node has been visited. -/
def observe
    (stop : StopAfter)
    (id : Stamp) : StopAfter :=
  if stop = pending id then stopped else stop

end StopAfter

/-- What a traversal has to know about a node. -/
class VisitNode (τ : Type) extends Identified τ, Named τ where
  /-- The node is the root of a source file. -/
  isSource : τ -> Bool

/-- The key under which a hook asks to leave out a node's children and the hook after it. -/
def skipChildrenKey : Text := "STOP_AFTER_PRE_VISIT".toList

/--
A visitor that waits for its turn: what it carries and where it stops when the turn begins, and the visitors that
wait for it already.
-/
structure QueuedVisitor (σ : Type) where
  own : σ
  stop : StopAfter := .never
  waiting : List (QueuedVisitor σ) := []

/-- The state of a visitor: `own` is what this visitor carries, and `world` is shared by all visitors of a run. -/
structure VisitState (τ ω σ γ : Type) where
  cursor : Cursor (FrameValue τ ω)
  /-- How many visits are open. -/
  depth : Nat
  /-- The visitors to run over the result. -/
  queue : List (QueuedVisitor σ)
  stop : StopAfter
  own : σ
  world : γ

/-- The state before a run that starts below a given cursor. -/
def VisitState.start
    (cursor : Cursor (FrameValue τ ω))
    (stop : StopAfter)
    (own : σ)
    (world : γ) : VisitState τ ω σ γ where
  cursor := cursor
  depth := 0
  queue := []
  stop := stop
  own := own
  world := world

/-- The state before the turn of a queued visitor. -/
def QueuedVisitor.start
    (visitor : QueuedVisitor σ)
    (cursor : Cursor (FrameValue τ ω))
    (world : γ) : VisitState τ ω σ γ :=
  { VisitState.start cursor visitor.stop visitor.own world with queue := visitor.waiting }

/-- A step of a visit. The state survives a failure. -/
abbrev VisitM (τ ω σ γ : Type) := ExceptT Error (StateM (VisitState τ ω σ γ))

namespace VisitM

/-- Run a step from a state. -/
def runFrom
    (step : VisitM τ ω σ γ α)
    (state : VisitState τ ω σ γ) : Except Error α × VisitState τ ω σ γ :=
  step state

/-- Run a step inside a frame of its own, and go back to the frames from before. -/
def within
    (value : FrameValue τ ω)
    (step : VisitM τ ω σ γ α) : VisitM τ ω σ γ α := fun state =>
  let (outcome, left) := step { state with cursor := state.cursor.push value }
  (outcome, { left with cursor := state.cursor.returnTo left.cursor })

/-- The outcome of a step, as a value. -/
def attempt (step : VisitM τ ω σ γ α) : VisitM τ ω σ γ (Except Error α) := fun state =>
  let (outcome, left) := step state
  (.ok outcome, left)

/-- The step that has an outcome and does nothing. -/
def ofExcept : Except Error α -> VisitM τ ω σ γ α
  | .ok value => pure value
  | .error error => throw error

/-- Put a message on the innermost frame. -/
def putMessage
    (key : Text)
    (message : Message) : VisitM τ ω σ γ Unit :=
  modify fun state => { state with cursor := state.cursor.putMessage key message }

/-- Let a visitor run over the result. -/
def queueAfter (visitor : QueuedVisitor σ) : VisitM τ ω σ γ Unit :=
  modify fun state => { state with queue := state.queue ++ [visitor] }

/-- The visit has stopped. -/
def isStopped : VisitM τ ω σ γ Bool := do
  return (<- get).stop.isStopped

end VisitM

/-- The hooks of a visitor. -/
structure Traversal (τ ω σ γ : Type) where
  /-- Whether the node is wanted at all. -/
  accepts : τ -> VisitM τ ω σ γ Bool
  /-- Whether the source file is wanted; asked of wanted roots of source files. -/
  acceptsSource : τ -> VisitM τ ω σ γ Bool
  /-- Runs before the node's children. -/
  before : τ -> VisitM τ ω σ γ (Option τ)
  /-- Runs after the node's children. -/
  after : τ -> VisitM τ ω σ γ (Option τ)
  /-- Visits the node, given the visit of a child. -/
  dispatch : (τ -> VisitM τ ω σ γ (Option τ)) -> τ -> VisitM τ ω σ γ (Option τ)
  /-- How deep a visit of the node can go below it. -/
  depthBound : σ -> τ -> Nat
  /-- How many times a queued visitor can queue a visitor in turn. -/
  generations : σ -> Nat

namespace Traversal

variable [VisitNode τ] [Named ω]

/-- The dispatch of a node and the hook after it; a deleted node has neither. -/
def visitInside
    (traversal : Traversal τ ω σ γ)
    (visitChild : τ -> VisitM τ ω σ γ (Option τ)) : Option τ -> VisitM τ ω σ γ (Option τ)
  | none => pure none
  | some node => do
      match <- traversal.dispatch visitChild node with
      | none => return none
      | some node => traversal.after node

/-- The hooks and the dispatch of a wanted node. -/
def visitAccepted
    (traversal : Traversal τ ω σ γ)
    (visitChild : τ -> VisitM τ ω σ γ (Option τ))
    (tree : τ) : VisitM τ ω σ γ (Option τ) := do
  let first <- traversal.before tree
  let skip := (<- get).cursor.message? Message.truth? skipChildrenKey
  let last <-
    if skip = some true then pure first else traversal.visitInside visitChild first
  modify fun state => { state with stop := state.stop.observe (Identified.id tree) }
  return last

/-- Whether a node is to be visited. -/
def wants
    (traversal : Traversal τ ω σ γ)
    (tree : τ) : VisitM τ ω σ γ Bool := do
  if <- traversal.accepts tree then
    if VisitNode.isSource tree then traversal.acceptsSource tree else return true
  else
    return false

/-- Visit a node if it is wanted, and hand it on if not. -/
def visitIfAccepted
    (traversal : Traversal τ ω σ γ)
    (visitChild : τ -> VisitM τ ω σ γ (Option τ))
    (tree : τ) : VisitM τ ω σ γ (Option τ) := do
  if <- traversal.wants tree then
    traversal.visitAccepted visitChild tree
  else
    return some tree

/-- Record the path of the frames at which a step failed. -/
def locating (step : VisitM τ ω σ γ α) : VisitM τ ω σ γ α := fun state =>
  match step state with
  | (.ok value, left) => (.ok value, left)
  | (.error error, left) => (.error (error.locate left.cursor.path), left)

/-- One node: its frame, its visit, and after the outermost visit the queue. -/
def enter
    (traversal : Traversal τ ω σ γ)
    (drain : List (QueuedVisitor σ) -> τ -> VisitM τ ω σ γ (Option τ))
    (visitChild : τ -> VisitM τ ω σ γ (Option τ))
    (tree : τ) : VisitM τ ω σ γ (Option τ) := fun state =>
  if state.stop.isStopped then
    (.ok (some tree), state)
  else
    let (outcome, left) := VisitM.within (.tree tree)
      (locating (traversal.visitIfAccepted visitChild tree)) { state with depth := state.depth + 1 }
    if state.depth = 0 then
      let finished := { left with depth := 0, queue := [] }
      match outcome with
      | .ok (some result) => drain left.queue result finished
      | outcome => (outcome, finished)
    else
      (outcome, { left with depth := left.depth - 1 })

/-- Visit a node and, through the dispatch, what is below it, down to a depth. -/
def visitWithin
    (traversal : Traversal τ ω σ γ)
    (drain : List (QueuedVisitor σ) -> τ -> VisitM τ ω σ γ (Option τ)) : Nat -> τ -> VisitM τ ω σ γ (Option τ)
  | 0, tree => pure (some tree)
  | depth + 1, tree => traversal.enter drain (traversal.visitWithin drain depth) tree

/-- Visit a node, as deep as the bound that the traversal states in its own state. -/
def visitBounded
    (traversal : Traversal τ ω σ γ)
    (drain : List (QueuedVisitor σ) -> τ -> VisitM τ ω σ γ (Option τ))
    (tree : τ) : VisitM τ ω σ γ (Option τ) := fun state =>
  traversal.visitWithin drain (traversal.depthBound state.own tree + 1) tree state

/-- Run queued visitors one after the other, each from the frames of the queueing run. -/
def drainWith
    (visit : τ -> VisitM τ ω σ γ (Option τ)) : List (QueuedVisitor σ) -> τ -> VisitM τ ω σ γ (Option τ)
  | [], tree => pure (some tree)
  | visitor :: rest, tree => fun state =>
      let (outcome, left) := visit tree (visitor.start state.cursor state.world)
      let state := { state with
        cursor := state.cursor.returnTo left.cursor
        world := left.world }
      match outcome with
      | .ok (some result) => drainWith visit rest result state
      | .ok none => (.ok none, state)
      | .error error => (.error (error.locate state.cursor.path), state)

/-- Run queued visitors, with as many generations of queueing as given. -/
def drainWithin (traversal : Traversal τ ω σ γ) :
    Nat -> List (QueuedVisitor σ) -> τ -> VisitM τ ω σ γ (Option τ)
  | 0, _, tree => pure (some tree)
  | generation + 1, queue, tree =>
      drainWith (traversal.visitBounded (traversal.drainWithin generation)) queue tree

/-- Visit a tree. -/
def visit
    (traversal : Traversal τ ω σ γ)
    (tree : τ) : VisitM τ ω σ γ (Option τ) := fun state =>
  traversal.visitBounded (traversal.drainWithin (traversal.generations state.own)) tree state

/-- Visit a tree, if there is one. -/
def visit?
    (traversal : Traversal τ ω σ γ) : Option τ -> VisitM τ ω σ γ (Option τ)
  | none => pure none
  | some tree => traversal.visit tree

end Traversal

/-- Visit every marker of a set; an empty set has none to visit. -/
def visitMarkersWith
    (visitMarker : Marker Space -> VisitM τ ω σ γ (Marker Space))
    (markers : Markers Space) : VisitM τ ω σ γ (Markers Space) := do
  if markers.isEmpty then
    return markers
  else
    return markers.withMarkers (<- markers.toList.mapM visitMarker)

end Lossless
