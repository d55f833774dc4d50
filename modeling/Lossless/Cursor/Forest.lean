import Lossless.Cursor

/-!
# Shared frames

Several cursors can end in the same frame and then see each other's messages. A forest is a table of such
frames, each with a link to the frame below it; a cursor is named by its innermost frame. Everything that
is asked of a cursor is asked of its stack. A fork copies a stack, so that messages put afterwards on one
of the two are not seen by the other.
-/

namespace Lossless

/-- A frame with a link to the frame below it. -/
structure SharedFrame (ν : Type) where
  frame : Frame ν
  below : Option Nat

/-- A table of shared frames; a link points to an earlier place. -/
structure Forest (ν : Type) where
  shared : List (SharedFrame ν)

namespace Forest

def empty : Forest ν := ⟨[]⟩

/-- The frames from a place to the bottom, by at most so many links. -/
def framesWithin (forest : Forest ν) : Nat -> Nat -> List (Frame ν)
  | 0, _ => []
  | links + 1, place =>
      match forest.shared[place]? with
      | none => []
      | some shared =>
          shared.frame ::
            match shared.below with
            | none => []
            | some below => forest.framesWithin links below

/-- The stack that ends in a place. -/
def stack?
    (forest : Forest ν)
    (place : Nat) : Option (Cursor ν) :=
  match forest.framesWithin forest.shared.length place with
  | [] => none
  | top :: below => some ⟨top, below⟩

/-- Put a new frame above a place, or a new bottom; answers where it is. -/
def add
    (forest : Forest ν)
    (frame : Frame ν)
    (below : Option Nat) : Forest ν × Nat :=
  (⟨forest.shared ++ [⟨frame, below⟩]⟩, forest.shared.length)

/-- The place below a place. -/
def parent?
    (forest : Forest ν)
    (place : Nat) : Option Nat :=
  forest.shared[place]?.bind fun shared => shared.below

/-- Change the messages at a place. -/
def modifyMessages
    (forest : Forest ν)
    (place : Nat)
    (change : Messages -> Messages) : Forest ν :=
  ⟨forest.shared.modify place fun shared =>
    { shared with frame := { shared.frame with messages := change shared.frame.messages } }⟩

/-- The links of the frames. -/
def links (forest : Forest ν) : List (Option Nat) :=
  forest.shared.map fun shared => shared.below

/-- The places from a place to the bottom, by at most so many links. -/
def placesWithin (links : List (Option Nat)) : Nat -> Nat -> List Nat
  | 0, _ => []
  | count + 1, place =>
      match links[place]? with
      | none => []
      | some none => [place]
      | some (some below) => place :: placesWithin links count below

/-- The places of the stack that ends in a place, innermost first. -/
def places
    (forest : Forest ν)
    (place : Nat) : List Nat :=
  placesWithin forest.links forest.links.length place

/-- Leave the messages of some frames at some places. -/
def carry (forest : Forest ν) : List Nat -> List (Frame ν) -> Forest ν
  | place :: places, frame :: frames =>
      (forest.modifyMessages place fun _ => frame.messages).carry places frames
  | _, _ => forest

/-- Add a stack, given from the bottom up; answers where its innermost frame is. -/
def addStack (forest : Forest ν) (below : Option Nat) : List (Frame ν) -> Forest ν × Option Nat
  | [] => (forest, below)
  | frame :: above =>
      let (forest, place) := forest.add frame below
      forest.addStack (some place) above

/-- Copy the stack that ends in a place; answers where the copy ends. -/
def fork
    (forest : Forest ν)
    (place : Nat) : Forest ν × Option Nat :=
  match forest.stack? place with
  | none => (forest, none)
  | some stack => forest.addStack none stack.frames.reverse

end Forest
end Lossless
