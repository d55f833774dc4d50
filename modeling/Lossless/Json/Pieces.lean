import Lossless.Json.Node
import Lossless.Piece

/-!
# Printed pieces of a data tree

Every character of a source lives in some space or token, so a tree prints back to its source. A comma
stands before every element of a list but the first.
-/

namespace Lossless
namespace Json

/-- The pieces of a printed tree; spaces have no places. -/
abbrev Pieces := List (Piece Unit)

namespace Pieces

/-- A fixed token. -/
def symbol (text : String) : Piece Unit := .token text.toList

/-- The pieces of an element with its padding. -/
def padded (element : RightPadded (Tree × Pieces)) : Pieces :=
  element.element.2 ++ [.space () element.after]

/-- The pieces of the elements of a list. -/
def listElements : List (RightPadded (Tree × Pieces)) -> Pieces
  | [] => []
  | first :: rest => padded first ++ rest.flatMap fun element => symbol "," :: padded element

/-- The pieces of a form, without the leading space. -/
def form : Form (Tree × Pieces) -> Pieces
  | .document _ value eof => value.2 ++ [.space () eof]
  | .object members => symbol "\x7b" :: (listElements members ++ [symbol "\x7d"])
  | .member key value => padded key ++ symbol ":" :: value.2
  | .array values => symbol "[" :: (listElements values ++ [symbol "]"])
  | .literal source _ => [.token source]
  | .identifier name => [.token name]
  | .empty => []

end Pieces

namespace Tree

/-- The pieces of a tree. -/
def pieces (tree : Tree) : Pieces :=
  recurse
    (fun head form =>
      .space () head.leading :: .start head.id head.markers ::
        (Pieces.form form ++ [.finish head.id]))
    tree

/-- A tree printed with its markers. -/
def print (tree : Tree) : Text :=
  Piece.renderAll .slash .shown tree.pieces

/-- A tree printed without its markers. -/
def printTrimmed (tree : Tree) : Text :=
  Piece.renderAll .slash .hidden tree.pieces

/-- What is printed, with markers, before the syntax of the first node with an identifier. -/
def printedBefore?
    (tree : Tree)
    (id : Stamp) : Option Text :=
  Piece.textBefore? .slash .shown id tree.pieces

end Tree
end Json
end Lossless
