import Lossless.Cursor.Forest
import Lossless.Format.Indents
import Lossless.Format.Pass
import Lossless.Format.Separate
import Lossless.Format.Spacing

/-!
# Formatting as a whole

The passes in their fixed order. The styles are those of the enclosing source unit, or the defaults, with
what is configured on top. Every pass starts from its own copy of the frames around the tree, so that a
part of a unit is formatted against the indentation of its real ancestors.
-/

namespace Lossless
namespace Format

open Java

/-- The styles that a source unit carries; other trees have the defaults. -/
def stylesOf (tree : Tree) : Styles :=
  if tree.isSource then .ofNamed (tree.markers.findAll Fact.namedStyles?) else {}

/-- The styles of the source unit that a tree is or stands in. -/
def enclosingStyles
    (parent : TreeCursor)
    (tree : Tree) : Styles :=
  if tree.isSource then stylesOf tree
  else ((parent.firstEnclosing? Tree.isSource).map stylesOf).getD {}

/-- The passes of a formatting run in order. -/
def passes (styles : Styles) : List Pass :=
  [normalizeFormat, blankLines styles.blankLines, spaces styles.spacing,
    tabsAndIndents styles.indents, tabsOrSpaces styles.indents] ++
    if styles.indents.keepIndentsOnEmptyLines then [] else [trailingWhitespace]

/-- Run passes one after the other; a pass that leaves no tree changes nothing. -/
def runPasses
    (stopAfter : Option Stamp)
    (parent : TreeCursor) : List Pass -> Tree -> Except Error Tree
  | [], tree => .ok tree
  | pass :: rest, tree => do
      let visited <- pass.run stopAfter parent tree
      runPasses stopAfter parent rest (visited.getD tree)

/-- Format a tree below a cursor, with some styles changed. -/
def autoFormat
    (configure : Styles -> Styles)
    (stopAfter : Option Stamp)
    (parent : TreeCursor)
    (tree : Tree) : Except Error Tree :=
  runPasses stopAfter parent (passes (configure (enclosingStyles parent tree))) tree

/-! ## Below shared frames -/

/-- Run a pass below the frames of a place; what it puts on them stays there. -/
def Pass.runAt
    (pass : Pass)
    (stopAfter : Option Stamp)
    (forest : Forest TreeFrame)
    (place : Nat)
    (tree : Tree) : Except Error (Option Tree) × Forest TreeFrame :=
  match forest.stack? place with
  | none => (.ok none, forest)
  | some parent =>
      let (outcome, left) :=
        (Visitor.run pass tree).runFrom (.start parent (.ofTarget stopAfter) () ())
      (outcome, forest.carry (forest.places place) left.cursor.frames)

/-- Run passes one after the other, each below a fork of its own. -/
def runPassesAt
    (stopAfter : Option Stamp)
    (place : Nat) : List Pass -> Tree -> Forest TreeFrame -> Except Error Tree × Forest TreeFrame
  | [], tree, forest => (.ok tree, forest)
  | pass :: rest, tree, forest =>
      match forest.fork place with
      | (forked, none) => (.ok tree, forked)
      | (forked, some copy) =>
          match pass.runAt stopAfter forked copy tree with
          | (.error error, left) => (.error error, left)
          | (.ok visited, left) => runPassesAt stopAfter place rest (visited.getD tree) left

/-- Format a tree below the frames of a place, with some styles changed. -/
def autoFormatAt
    (configure : Styles -> Styles)
    (stopAfter : Option Stamp)
    (forest : Forest TreeFrame)
    (place : Nat)
    (tree : Tree) : Except Error Tree × Forest TreeFrame :=
  match forest.stack? place with
  | none => (.ok tree, forest)
  | some parent =>
      runPassesAt stopAfter place (passes (configure (enclosingStyles parent tree))) tree forest

/-! ## The frames around a part -/

/-- The visitor that notes the frames around a node, counted in the order of visits. -/
def locator : Visitor Unit (Nat × Option TreeCursor) where
  before := fun tree => do
    let state <- get
    match state.world with
    | (0, none) => set { state with world := (0, state.cursor.parent?) }
    | (remaining, found) => set { state with world := (remaining - 1, found) }
    return some tree

/-- The frames around a node of a tree, given by its number in source order. -/
def parentCursor?
    (tree : Tree)
    (number : Nat) : Option TreeCursor :=
  ((locator.run tree).runFrom (.start .root .never () (number, none))).2.world.2

end Format
end Lossless
