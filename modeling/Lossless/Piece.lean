import Lossless.Padding

/-!
# Pieces of printed text

A tree is printed as a list of pieces in source order: the spaces, each with its place, the tokens, and
where the syntax of each node starts and ends. Everything that is asked of a printed tree, its text, the
offset of a node, its spaces, its tokens, is asked of this list.
-/

namespace Lossless

/-- A piece of a printed tree, with spaces in places of `π`. -/
inductive Piece (π : Type)
  | space (place : π) (content : Space)
  | token (text : Text)
  /-- After the prefix of a node and before its first token. -/
  | start (id : Stamp) (markers : Markers Space)
  /-- After the last token of a node. -/
  | finish (id : Stamp)

/-- Whether the markers of nodes are printed. -/
inductive MarkerOutput
  /-- Search results are printed as block comments. -/
  | shown
  | hidden
  deriving DecidableEq

/-- The printed form of a marker. -/
def Fact.render : Fact σ -> Text
  | .searchResult none => "/*~~>*/".toList
  | .searchResult (some description) => "/*~~(".toList ++ description ++ ")~~>*/".toList
  | _ => []

/-- The printed form of a marker set before the syntax of its node. -/
def Markers.render
    (output : MarkerOutput)
    (markers : Markers Space) : Text :=
  match output with
  | .shown => markers.toList.flatMap fun marker => marker.fact.render
  | .hidden => []

namespace Piece

/-- The text of a piece. -/
def render
    (delimiters : CommentDelimiters)
    (output : MarkerOutput) : Piece π -> Text
  | space _ content => content.render delimiters
  | token text => text
  | start _ markers => markers.render output
  | finish _ => []

/-- The text of a list of pieces. -/
def renderAll
    (delimiters : CommentDelimiters)
    (output : MarkerOutput)
    (pieces : List (Piece π)) : Text :=
  pieces.flatMap fun piece => piece.render delimiters output

@[simp] theorem renderAll_nil
    (delimiters : CommentDelimiters)
    (output : MarkerOutput) :
    renderAll delimiters output ([] : List (Piece π)) = [] := rfl

@[simp] theorem renderAll_cons
    (delimiters : CommentDelimiters)
    (output : MarkerOutput)
    (piece : Piece π)
    (pieces : List (Piece π)) :
    renderAll delimiters output (piece :: pieces) =
      piece.render delimiters output ++ renderAll delimiters output pieces := by
  simp [renderAll]

@[simp] theorem renderAll_append
    (delimiters : CommentDelimiters)
    (output : MarkerOutput)
    (left right : List (Piece π)) :
    renderAll delimiters output (left ++ right) =
      renderAll delimiters output left ++ renderAll delimiters output right := by
  simp [renderAll]

/-- The pieces before the first start of a node. -/
def beforeStart? (id : Stamp) : List (Piece π) -> Option (List (Piece π))
  | [] => none
  | start other markers :: rest =>
      if other = id then some []
      else (beforeStart? id rest).map (start other markers :: ·)
  | piece :: rest => (beforeStart? id rest).map (piece :: ·)

/-- The text that is printed before the syntax of a node. -/
def textBefore?
    (delimiters : CommentDelimiters)
    (output : MarkerOutput)
    (id : Stamp)
    (pieces : List (Piece π)) : Option Text :=
  (beforeStart? id pieces).map (renderAll delimiters output)

/-- The spaces with their places. -/
def spaces (pieces : List (Piece π)) : List (π × Space) :=
  pieces.filterMap fun
    | space place content => some (place, content)
    | _ => none

/-- The tokens. -/
def tokens (pieces : List (Piece π)) : List Text :=
  pieces.filterMap fun
    | token text => some text
    | _ => none

end Piece
end Lossless
