import Lossless.Error
import Lossless.Message

/-!
# Cursors

A cursor is the stack of frames from the node that is being visited down to the root. Every frame has a
value, a tree or a padding or the root sentinel, and a store of messages. A lookup of the nearest message
walks from the innermost frame to the root.
-/

namespace Lossless

/-- Something with a name for its kind, by which paths are written. -/
class Named (α : Type) where
  kindName : α -> Text

/-- What a frame stands for. -/
inductive FrameValue (τ ω : Type)
  /-- The sentinel below every stack. -/
  | root
  /-- A node. -/
  | tree (node : τ)
  /-- A padding or a list between two nodes. -/
  | padding (place : ω)

namespace FrameValue

def tree? : FrameValue τ ω -> Option τ
  | tree node => some node
  | _ => none

def padding? : FrameValue τ ω -> Option ω
  | padding place => some place
  | _ => none

def isRoot : FrameValue τ ω -> Bool
  | root => true
  | _ => false

/-- The name of a frame in a path. -/
def kindName [Named τ] [Named ω] : FrameValue τ ω -> Text
  | root => "root".toList
  | tree node => Named.kindName node
  | padding place => Named.kindName place

end FrameValue

/-- One level of a traversal. -/
structure Frame (ν : Type) where
  value : ν
  messages : Messages

/-- A stack of frames that is never empty. -/
structure Cursor (ν : Type) where
  top : Frame ν
  below : List (Frame ν)

namespace Cursor

/-- A stack of one frame. -/
def base (value : ν) : Cursor ν := ⟨⟨value, .empty⟩, []⟩

/-- The stack of the root alone. -/
def root : Cursor (FrameValue τ ω) := base .root

/-- The frames, innermost first. -/
def frames (cursor : Cursor ν) : List (Frame ν) :=
  cursor.top :: cursor.below

/-- The values of the frames, innermost first. -/
def values (cursor : Cursor ν) : List ν :=
  cursor.frames.map fun frame => frame.value

/-- How many frames are below the innermost one. -/
def depth (cursor : Cursor ν) : Nat :=
  cursor.below.length

/-- Put a frame without messages on top. -/
def push
    (cursor : Cursor ν)
    (value : ν) : Cursor ν :=
  ⟨⟨value, .empty⟩, cursor.frames⟩

@[simp] theorem values_push
    (cursor : Cursor ν)
    (value : ν) :
    (cursor.push value).values = value :: cursor.values := rfl

/-- The stack below the innermost frame. -/
def parent? (cursor : Cursor ν) : Option (Cursor ν) :=
  match cursor.below with
  | [] => none
  | top :: below => some ⟨top, below⟩

@[simp] theorem parent?_push
    (cursor : Cursor ν)
    (value : ν) :
    (cursor.push value).parent? = some cursor := rfl

/-- The stacks that end in each frame, the whole one first. -/
def ancestors (cursor : Cursor ν) : List (Cursor ν) :=
  cursorsFrom cursor.top cursor.below
where
  cursorsFrom (top : Frame ν) : List (Frame ν) -> List (Cursor ν)
    | [] => [⟨top, []⟩]
    | next :: below => ⟨top, next :: below⟩ :: cursorsFrom next below

/-! ## Messages -/

/-- The message of one type under a key of the innermost frame. -/
def message?
    (select : Message -> Option α)
    (cursor : Cursor ν)
    (key : Text) : Option α :=
  cursor.top.messages.read? select key

/-- The message of one type under a key of the innermost frame that has one. -/
def nearestMessage?
    (select : Message -> Option α)
    (cursor : Cursor ν)
    (key : Text) : Option α :=
  cursor.frames.findSome? fun frame => frame.messages.read? select key

/-- Put a message on the innermost frame. -/
def putMessage
    (cursor : Cursor ν)
    (key : Text)
    (message : Message) : Cursor ν :=
  { cursor with top := { cursor.top with messages := cursor.top.messages.put key message } }

@[simp] theorem values_putMessage
    (cursor : Cursor ν)
    (key : Text)
    (message : Message) :
    (cursor.putMessage key message).values = cursor.values := rfl

/-- Put a message on the frame that many steps below the innermost one. -/
def putMessageBelow
    (cursor : Cursor ν)
    (key : Text)
    (message : Message) : Nat -> Cursor ν
  | 0 => cursor.putMessage key message
  | steps + 1 =>
      { cursor with
        below := cursor.below.modify steps fun frame =>
          { frame with messages := frame.messages.put key message } }

/-! ## Leaving frames -/

/-- The frames of `saved` with the messages that stand at the same heights in `current`. -/
def carryMessages : (saved current : List (Frame ν)) -> List (Frame ν)
  | saved :: rest, current :: more =>
      { saved with messages := current.messages } :: carryMessages rest more
  | saved, _ => saved

/-- Go back to a stack that was left behind; messages put on its frames since then stay. -/
def returnTo (saved current : Cursor ν) : Cursor ν :=
  match carryMessages saved.frames (current.frames.drop (current.depth - saved.depth)) with
  | top :: below => ⟨top, below⟩
  | [] => saved

theorem map_value_carryMessages
    (saved current : List (Frame ν)) :
    (carryMessages saved current).map (fun frame => frame.value) =
      saved.map fun frame => frame.value := by
  induction saved generalizing current with
  | nil => cases current <;> rfl
  | cons first rest ih =>
      cases current with
      | nil => rfl
      | cons frame more => simp [carryMessages, ih]

/-- Going back restores every frame. -/
@[simp] theorem values_returnTo (saved current : Cursor ν) :
    (saved.returnTo current).values = saved.values := by
  have carried := map_value_carryMessages saved.frames
    (current.frames.drop (current.depth - saved.depth))
  unfold returnTo
  split
  · next top below frames =>
      rw [frames] at carried
      exact carried
  · rfl

/-! ## Looking at the stack -/

section

variable [Named τ] [Named ω]

/-- The kinds of the frames. -/
def path (cursor : Cursor (FrameValue τ ω)) : CursorPath :=
  ⟨cursor.values.map FrameValue.kindName⟩

end

/-- The node of the innermost frame, if it has one. -/
def tree? (cursor : Cursor (FrameValue τ ω)) : Option τ :=
  cursor.top.value.tree?

/-- The nodes on the stack, innermost first. -/
def trees (cursor : Cursor (FrameValue τ ω)) : List τ :=
  cursor.values.filterMap FrameValue.tree?

/-- The innermost node, this frame's included, that passes a test. -/
def firstEnclosing?
    (test : τ -> Bool)
    (cursor : Cursor (FrameValue τ ω)) : Option τ :=
  cursor.trees.find? test

/-- The stack that ends in the closest frame below this one that holds a node or the root. -/
def parentTree? (cursor : Cursor (FrameValue τ ω)) : Option (Cursor (FrameValue τ ω)) :=
  cursor.ancestors.tail.find? fun ancestor =>
    ancestor.top.value.isRoot || ancestor.tree?.isSome

end Cursor
end Lossless
