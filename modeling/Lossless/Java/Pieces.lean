import Lossless.Java.Node
import Lossless.Piece

/-!
# Printed pieces of a tree

Every character of a source lives in some space or token, so a tree prints back to its source. The dialect
decides the punctuation: braces and semicolons for Java, colons and optional semicolons for Python.
-/

namespace Lossless
namespace Java

/-- The pieces of a printed tree. -/
abbrev Pieces := List (Piece SpacePlace)

namespace Form

/-- The place of the space before a node of this kind. -/
def leadingPlace : Form α -> SpacePlace
  | compilationUnit .. => .compilationUnitPrefix
  | block .. => .blockPrefix
  | conditional .. => .ifPrefix
  | otherwise .. => .elsePrefix
  | returns .. => .returnPrefix
  | assignment .. => .assignmentPrefix
  | binary .. => .binaryPrefix
  | identifier .. => .identifierPrefix
  | literal .. => .literalPrefix
  | fieldAccess .. => .fieldAccessPrefix
  | call .. => .methodInvocationPrefix
  | declaration .. => .methodDeclarationPrefix
  | parentheses .. => .parenthesesPrefix
  | collection .. => .collectionLiteralPrefix
  | empty => .emptyPrefix
  | unknown .. => .unknownPrefix

end Form

/-- A statement in this padding is printed with a semicolon. -/
def Dialect.needsSemicolon
    (dialect : Dialect)
    (padded : RightPadded Tree) : Bool :=
  if (padded.markers.findFirst? Fact.semicolon?).isSome then true
  else
    match dialect with
    | .python => false
    | .java => !padded.element.form.isSelfTerminated

namespace Pieces

/-- A fixed token. -/
def symbol (text : String) : Piece SpacePlace := .token text.toList

/-- A child with its pieces. -/
abbrev Printed := Tree × Pieces

/-- The pieces of a statement with its padding and its semicolon. -/
def statement
    (dialect : Dialect)
    (place : ElementPlace)
    (padded : RightPadded Printed) : Pieces :=
  padded.element.2 ++ .space place.after padded.after ::
    if dialect.needsSemicolon (padded.map Prod.fst) then [symbol ";"] else []

/-- The comma after the last element of a list and the space after it. -/
def trailingComma (markers : Markers Space) : Pieces :=
  match markers.findFirst? Fact.trailingComma? with
  | some suffix => [symbol ",", .space .trailingCommaSuffix suffix]
  | none => []

/-- The pieces of the elements of a list, with a comma between any two. -/
def listElements (place : ElementPlace) : List (RightPadded Printed) -> Pieces
  | [] => []
  | [last] => last.element.2 ++ .space place.after last.after :: trailingComma last.markers
  | padded :: rest =>
      padded.element.2 ++ .space place.after padded.after :: symbol "," ::
        listElements place rest

/-- The pieces of a delimited list. -/
def container
    (place : ContainerPlace)
    (delimiters : Text × Text)
    (list : Container Printed) : Pieces :=
  .space place.before list.before :: .token delimiters.1 ::
    (listElements place.element list.padded ++ [.token delimiters.2])

/-- The pieces of a child that may be absent. -/
def option : Option Printed -> Pieces
  | none => []
  | some child => child.2

/-- The pieces of the receiver of a call, up to the dot. -/
def receiver : Option (RightPadded Printed) -> Pieces
  | none => []
  | some padded =>
      padded.element.2 ++ [.space ElementPlace.methodSelect.after padded.after, symbol "."]

/-- The pieces of a form, without the leading space. -/
def form (dialect : Dialect) : Form Printed -> Pieces
  | .compilationUnit _ _ statements eof =>
      statements.flatMap (statement dialect .compilationUnitStatement) ++
        [.space .compilationUnitEof eof]
  | .block statements closing =>
      let body := statements.flatMap (statement dialect .blockStatement) ++
        [.space .blockEnd closing]
      match dialect with
      | .java => symbol "\x7b" :: (body ++ [symbol "\x7d"])
      | .python => symbol ":" :: body
  | .conditional condition consequence alternative =>
      symbol "if" :: (condition.2 ++ statement dialect .ifThen consequence ++
        option alternative)
  | .otherwise body => symbol "else" :: statement dialect .elseBody body
  | .returns value => symbol "return" :: option value
  | .assignment target value _ =>
      target.2 ++ .space OperandPlace.assignmentValue.before value.before :: symbol "=" ::
        value.element.2
  | .binary left operator right _ =>
      left.2 ++ .space OperandPlace.binaryOperator.before operator.before ::
        .token (operator.element.symbol dialect) :: right.2
  | .identifier name _ => [.token name]
  | .literal source _ => [.token source]
  | .fieldAccess target name _ =>
      target.2 ++ .space OperandPlace.fieldAccessName.before name.before :: symbol "." ::
        name.element.2
  | .call receiver' name arguments _ =>
      receiver receiver' ++ name.2 ++
        container .methodInvocationArguments (['('], [')']) arguments
  | .declaration returnType name parameters body =>
      (match dialect with
        | .java => []
        | .python => [symbol "def"]) ++
        option returnType ++ name.2 ++
        container .methodDeclarationParameters (['('], [')']) parameters ++ option body
  | .parentheses inner =>
      symbol "(" :: (inner.element.2 ++
        [.space ElementPlace.parentheses.after inner.after, symbol ")"])
  | .collection kind elements _ =>
      container .collectionElements kind.delimiters elements
  | .empty => []
  | .unknown text => [.token text]

end Pieces

namespace Tree

/-- The pieces of a tree in a dialect. -/
def pieces
    (dialect : Dialect)
    (tree : Tree) : Pieces :=
  recurse
    (fun head form =>
      .space form.leadingPlace head.leading :: .start head.id head.markers ::
        (Pieces.form dialect form ++ [.finish head.id]))
    tree

/-- A tree printed in a dialect, without its markers. -/
def printIn
    (dialect : Dialect)
    (tree : Tree) : Text :=
  Piece.renderAll dialect.delimiters .hidden (tree.pieces dialect)

/-- A tree printed with its markers. -/
def print (tree : Tree) : Text :=
  Piece.renderAll tree.dialect.delimiters .shown (tree.pieces tree.dialect)

/-- A tree printed without its markers. -/
def printTrimmed (tree : Tree) : Text :=
  tree.printIn tree.dialect

/-- What is printed, with markers, before the syntax of the first node with an identifier. -/
def printedBefore?
    (tree : Tree)
    (id : Stamp) : Option Text :=
  Piece.textBefore? tree.dialect.delimiters .shown id (tree.pieces tree.dialect)

end Tree
end Java
end Lossless
