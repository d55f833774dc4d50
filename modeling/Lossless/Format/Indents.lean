import Lossless.Format.Indentation
import Lossless.Format.Pass
import Lossless.Format.Spacing

/-!
# Indenting lines

Every line starts in a column that follows from the nesting around it. What the pass knows travels in
messages on the frames: how the parts of a node relate to its line, the column of the innermost line start,
the column of the wrapped segments of a chain of calls, and the column that a list gives to its elements.

Wrapped elements of a list stand below the first element or take a continuation indent; what closes the
list goes back to the column of the line that it belongs to.
-/

namespace Lossless
namespace Format

open Java

namespace Indents

/-- How the parts of a node relate to its line. -/
def nestingKey : Text := "indentType".toList

/-- The column of the innermost node that starts a line. -/
def lastIndentKey : Text := "lastIndent".toList

/-- The column of the wrapped segments of a chain of calls, on its outermost call. -/
def chainedIndentKey : Text := "chainedIndent".toList

/-- The column in which the first token of a node that starts a line stands now. -/
def lineStartKey : Text := "lineStart".toList

/-- The column that a list gives to an element. -/
def elementIndentKey : Text := "elementIndent".toList

/-- The column of a part from the column of its line. -/
def columnFor
    (style : IndentStyle)
    (indent : Nat) : Nesting -> Except Error Nat
  | .aligned => .ok indent
  | .indented => addWords indent style.indentSize
  | .continued => addWords indent style.continuationIndent

/-- The column of the innermost line start. -/
def lastIndent (cursor : TreeCursor) : Nat :=
  (cursor.nearestMessage? Message.column? lastIndentKey).getD 0

/-- How the node around relates to its line. -/
def nearestNesting (cursor : TreeCursor) : Nesting :=
  (cursor.nearestMessage? Message.nesting? nestingKey).getD .aligned

/-- The node is a call. -/
def isCall (tree : Tree) : Bool :=
  match tree.form with
  | .call .. => true
  | _ => false

/-- A frame of the receiver of a call, with the frame of the call below it. -/
def isReceiverOf (padding owner : Frame TreeFrame) : Bool :=
  padding.value.padding?.bind PaddingFrame.element? = some .methodSelect &&
    owner.value.tree?.any isCall

/-- How many frames below the innermost one the outermost call of its chain is. -/
def chainHeight : List (Frame TreeFrame) -> Nat
  | _ :: padding :: owner :: below =>
      if isReceiverOf padding owner then chainHeight (owner :: below) + 2 else 0
  | _ => 0

/-- The column of the wrapped segments of the chain that the innermost frame belongs to. -/
def chainedIndent (style : IndentStyle) : PassVisit Nat := do
  let cursor := (<- get).cursor
  let height := chainHeight cursor.frames
  let outermost := (cursor.ancestors.drop height).headD cursor
  match outermost.message? Message.column? chainedIndentKey with
  | some column => return column
  | none =>
      let column <- .ofExcept (addWords (lastIndent outermost) style.continuationIndent)
      modify fun state =>
        { state with
          cursor := state.cursor.putMessageBelow chainedIndentKey (.column column) height }
      return column

/-- The node of a frame has no line of its own for a block that starts one. -/
def isBlockOwner (cursor : TreeCursor) : Bool :=
  match (cursor.parentTree?.bind Cursor.tree?).map Tree.form with
  | some (.block ..) | some (.compilationUnit ..) => false
  | _ => true

/-- The space goes to the column of the line around it, whatever the nesting. -/
def isForcedAligned
    (cursor : TreeCursor) : SpacePlace -> Bool
  | .blockEnd | .elsePrefix | .ifThenSuffix | .elseSuffix | .parenthesesSuffix
  | .blockStatementSuffix | .compilationUnitStatementSuffix | .compilationUnitEof => true
  | .blockPrefix => isBlockOwner cursor
  | _ => false

/-- The column that a list gave to the node whose leading space this is. -/
def elementIndent?
    (cursor : TreeCursor)
    (place : SpacePlace) : Option Nat :=
  if place.isTreePrefix then
    cursor.parent?.bind fun parent =>
      match parent.top.value.padding?.bind PaddingFrame.element? with
      | some element =>
          if element.isContainerElement then
            parent.message? Message.column? elementIndentKey
          else none
      | none => none
  else none

/-- The nesting that decides the column of a space. -/
def nestingFor
    (cursor : TreeCursor)
    (place : SpacePlace) : Nesting :=
  if isForcedAligned cursor place then .aligned
  else if place.isTreePrefix then (cursor.parent?.map nearestNesting).getD .aligned
  else nearestNesting cursor

/-- The column that a space with a line break leads to. -/
def columnOfSpace
    (style : IndentStyle)
    (place : SpacePlace) : PassVisit Nat := do
  let cursor := (<- get).cursor
  if place = .methodSelectSuffix then
    chainedIndent style
  else
    match elementIndent? cursor place with
    | some column => return column
    | none => .ofExcept (columnFor style (lastIndent cursor) (nestingFor cursor place))

/-- Indent a space with a line break, and note the column for what is inside. -/
def visitWrapped
    (style : IndentStyle)
    (place : SpacePlace)
    (space : Space) : PassVisit Space := do
  let column <- columnOfSpace style place
  let indented <- .ofExcept (indentTo style column space)
  if place.isTreePrefix then
    VisitM.putMessage lastIndentKey (.column column)
    if space.lastWhitespace.contains '\n' then
      VisitM.putMessage lineStartKey (.column column)
  else if place = .methodSelectSuffix then
    VisitM.putMessage lastIndentKey (.column column)
  return indented

/-- Indent a space. -/
def visitSpace
    (style : IndentStyle)
    (place : SpacePlace)
    (space : Space) : PassVisit Space := do
  if <- VisitM.isStopped then return space
  else if place = .compilationUnitPrefix then .ofExcept (indentTo style 0 (space.withWhitespace []))
  else if !space.containsNewline then return space
  else visitWrapped style place space

/-- How the parts of a node of this kind relate to its line. -/
def nestingOf (style : IndentStyle) : Form Tree -> Nesting
  | .compilationUnit .. => .aligned
  | .block .. | .conditional .. | .otherwise .. => .indented
  | .collection .. => if style.continueCollections then .continued else .indented
  | _ => .continued

/-- Note what the parts of a node need. -/
def enterNode
    (style : IndentStyle)
    (tree : Tree) : PassVisit (Option Tree) := do
  if tree.isSource then
    VisitM.putMessage lastIndentKey (.column 0)
    VisitM.putMessage lineStartKey (.column 0)
  VisitM.putMessage nestingKey (.nesting (nestingOf style tree.form))
  return some tree

/-- The column in which a node stands, when it is on the line of an enclosing node. -/
def columnInLine?
    (owner : TreeCursor)
    (first : Stamp) : Option (Except Error Nat) := do
  let anchor <- owner.ancestors.find? fun ancestor =>
    ancestor.tree?.isSome && (ancestor.message? Message.column? lineStartKey).isSome
  let lineStart <- anchor.message? Message.column? lineStartKey
  let tree <- anchor.tree?
  let dialect := enclosingDialect owner
  let before <- Piece.textBefore? dialect.delimiters .hidden first (tree.pieces dialect)
  let segment := before.drop (tree.leading.render dialect.delimiters).length
  if segment.contains '\n' then
    return .ok (Text.columnOf before)
  else
    return addWords lineStart segment.length

/-- What decides the columns of the elements of a list. -/
structure ListColumns where
  /-- The column of the line around the list. -/
  enclosing : Nat
  /-- The column of a wrapped element. -/
  wrapped : Nat
  /-- Wrapped elements stand below the first one. -/
  aligns : Bool

/-- How wrapped elements of a list in its place relate to the line around the list. -/
def nestingOfElements
    (style : IndentStyle) : ContainerPlace -> Nesting
  | .methodInvocationArguments | .methodDeclarationParameters => .continued
  | .collectionElements => if style.continueCollections then .continued else .indented

/-- Whether the wrapped elements of a list in its place stand below the first one. -/
def alignsElements
    (style : IndentStyle) : ContainerPlace -> Bool
  | .methodInvocationArguments => style.alignArguments
  | .methodDeclarationParameters => style.alignParameters
  | .collectionElements => false

/-- The columns of a list in its place, whether or not an element is wrapped. -/
def listColumns
    (style : IndentStyle)
    (enclosing : Nat)
    (place : ContainerPlace) : Except Error ListColumns := do
  let wrapped <- columnFor style enclosing (nestingOfElements style place)
  return ⟨enclosing, wrapped, alignsElements style place⟩

/-- The column below the first element, once it has been indented. -/
def firstElementColumn
    (style : IndentStyle)
    (columns : ListColumns)
    (owner : TreeCursor)
    (unindented indented : Tree) : Except Error Nat :=
  let whitespace := indented.leading.lastWhitespace
  if whitespace.contains '\n' then indentWidth style.tabSize whitespace
  else (columnInLine? owner unindented.id).getD (.ok columns.wrapped)

/-- Indent the space after a trailing comma, if there is one. -/
def indentTrailingComma
    (style : IndentStyle)
    (column : Nat)
    (markers : Markers Space) : Except Error (Markers Space) := do
  match markers.findFirst? Fact.trailingComma? with
  | none => return markers
  | some suffix =>
      let indented <- indentTo style column suffix
      return updateTrailingComma (fun _ => indented) markers

/-- Indent the gap after an element, and the one after a trailing comma. -/
def indentAfter
    (style : IndentStyle)
    (columns : ListColumns)
    (target : Nat)
    (isLast : Bool)
    (padded : RightPadded Tree) : Except Error (RightPadded Tree) := do
  let column :=
    if isLast && !hasTrailingComma padded then columns.enclosing else target
  let after <- indentTo style column padded.after
  let markers <-
    if isLast then indentTrailingComma style columns.enclosing padded.markers else pure padded.markers
  return { padded with after, markers }

variable (style : IndentStyle)
variable (visit : Tree -> PassVisit (Option Tree))

/-- Visit the elements of a list. The column of the next element is given; the first one can set it. -/
def visitElements
    (place : ElementPlace)
    (columns : ListColumns)
    (isFirst : Bool)
    (target : Nat) : List (RightPadded Tree) -> PassVisit (List (RightPadded Tree))
  | [] => pure []
  | padded :: rest => do
      let visited <- VisitM.within (.padding (.element place)) do
        VisitM.putMessage elementIndentKey (.column target)
        visit padded.element
      match visited with
      | none => visitElements place columns false target rest
      | some element =>
          let owner := (<- get).cursor.parent?
          let target <- .ofExcept <|
            match owner with
            | some owner =>
                if isFirst && columns.aligns then
                  firstElementColumn style columns owner padded.element element
                else pure target
            | none => pure target
          let first <- Pass.unlessStopped { padded with element } fun padded =>
            .ofExcept (indentAfter style columns target rest.isEmpty padded)
          return first :: (<- visitElements place columns false target rest)

/-- Visit a delimited list. -/
def visitList
    (place : ContainerPlace)
    (list : Container Tree) : PassVisit (Container Tree) := do
  let enclosing := lastIndent (<- get).cursor
  let (before, padded) <- VisitM.within (.padding (.container place)) do
    let before <- visitSpace style place.before list.before
    let columns <- .ofExcept (listColumns style enclosing place)
    return (before,
      <- visitElements style visit place.element columns true columns.wrapped list.padded)
  return ⟨before, padded, list.markers⟩

end Indents

/-- Indent every line. -/
def tabsAndIndents (style : IndentStyle) : Pass where
  space := Indents.visitSpace style
  before := Indents.enterNode style
  visitContainer := Indents.visitList style

end Format
end Lossless
