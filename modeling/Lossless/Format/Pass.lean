import Lossless.Format.Indentation
import Lossless.Format.LineEnds
import Lossless.Java.Visitor

/-!
# Passes

A pass is a visitor that changes spacing and carries no state of its own. Once the visit has stopped it
changes nothing more. Most passes change each space by its place, the space after a trailing comma
included; others change a node after its children. Here are also the passes that change every space by itself:
capping blank lines, indenting with the right characters, stripping blanks at line ends, and making line breaks
alike.
-/

namespace Lossless
namespace Format

open Java

/-- A visitor without a state of its own. -/
abbrev Pass := Visitor Unit Unit

/-- A step of a pass. -/
abbrev PassVisit := TreeVisit Unit Unit

/-- Change the space after a trailing comma; other markers stay. -/
def mapTrailingComma
    (change : Space -> Except Error Space)
    (marker : Marker Space) : Except Error (Marker Space) := do
  match marker.fact with
  | .trailingComma suffix =>
      let changed <- change suffix
      return if changed = suffix then marker else marker.withFact (.trailingComma changed)
  | _ => return marker

/-- Change the leading whitespace and every suffix of a space. -/
def changeWhitespace
    (change : Text -> Except Error Text)
    (space : Space) : Except Error Space := do
  let whitespace <- change space.whitespace
  let comments <- space.comments.mapM fun comment => do
    return { comment with suffix := <- change comment.suffix }
  return (space.withWhitespace whitespace).withComments comments

namespace Pass

/-- Change a value unless the visit has stopped. -/
def unlessStopped
    (value : α)
    (change : α -> PassVisit α) : PassVisit α := do
  if <- VisitM.isStopped then return value else change value

/-- The pass that changes each space by its place. -/
def ofSpaces (change : SpacePlace -> Space -> Except Error Space) : Pass where
  space := fun place space => unlessStopped space fun space => .ofExcept (change place space)
  marker := fun marker =>
    unlessStopped marker fun marker => .ofExcept (mapTrailingComma (change .trailingCommaSuffix) marker)

/-- The pass that changes each node after its children, seeing the frames around it. -/
def ofNodes (change : TreeCursor -> Tree -> Tree) : Pass where
  after := fun tree => do
    let cursor := (<- get).cursor
    return some (<- unlessStopped tree fun tree => return change cursor tree)

/-- Run a pass on a tree below a cursor; it ends after the node with the given identifier. -/
def run
    (pass : Pass)
    (stopAfter : Option Stamp)
    (parent : TreeCursor)
    (tree : Tree) : Except Error (Option Tree) :=
  ((Visitor.run pass tree).runFrom (.start parent (.ofTarget stopAfter) () ())).1

end Pass

/-! ## Passes over spaces -/

/-- Cap runs of blank lines; before the end of a block another cap holds. -/
def blankLines (style : BlankLineStyle) : Pass :=
  .ofSpaces fun place space =>
    let keep := if place = .blockEnd then style.beforeEndOfBlock else style.inCode
    changeWhitespace (keepMaximumBlankLines keep) space

/-- Indent with the characters of the style. -/
def tabsOrSpaces (style : IndentStyle) : Pass :=
  .ofSpaces fun _ space => changeWhitespace (retab style) space

/-- Strip blanks before line breaks, at the end of the file, and before its first token. -/
def stripSpace
    (place : SpacePlace)
    (space : Space) : Space :=
  if place = .compilationUnitPrefix && space.comments = [] then .empty
  else if place = .compilationUnitEof then space.mapWhitespace onlyLineBreaks
  else space.mapWhitespace stripTrailing

/-- Strip the blanks of every space. -/
def trailingWhitespace : Pass :=
  .ofSpaces fun place space => return stripSpace place space

/-- Make the line breaks of a space alike, those inside block comments included. -/
def normalizeLineBreaks
    (useCrlf : Bool)
    (space : Space) : Space :=
  let space := space.mapWhitespace (normalizeNewLines useCrlf)
  space.withComments <| space.comments.map fun comment =>
    if comment.isBlock then { comment with text := normalizeNewLines useCrlf comment.text }
    else comment

/-- Make all line breaks alike. -/
def lineBreaks (style : LineBreakStyle) : Pass :=
  .ofSpaces fun _ space => return normalizeLineBreaks style.useCrlf space

end Format
end Lossless
