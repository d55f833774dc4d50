import Lossless.Java.Grammar.Statement
import Lossless.Java.Pieces
import Lossless.Java.Visitor
import Lossless.Language

/-!
# The language of syntax trees

How syntax trees are parsed, ruled and edited in place.
-/

namespace Lossless
namespace Java

/-!
## Rules on syntax trees

The visitor that applies rules to syntax trees. The name of a space is its whitespace, and its kind the
name of its place.
-/

/-- What a compilation unit says about its file. -/
def Tree.sourceSummary? (tree : Tree) : Option SourceSummary :=
  match tree.form with
  | .compilationUnit dialect source _ eof =>
      some ⟨dialect.language, source.path.text, source.charset, source.attributes.isSome, eof⟩
  | _ => none

instance : RuleNode Tree where
  text := Tree.text
  withLeading := Tree.withLeading
  markers := Tree.markers
  withMarkers := Tree.withMarkers
  rename := Tree.rename
  withTypeTag := fun tree tag => tree.withTypeTag (some tag)
  height := Tree.height
  sourceSummary? := Tree.sourceSummary?

/-- The visitor that applies rules. -/
def ruleVisitor : Visitor (RuleSet Tree) EventLog where
  space := fun place space => RuleVisit.space place.name space
  marker := RuleVisit.marker
  accepts := RuleVisit.accepts
  acceptsSource := RuleVisit.acceptsSource
  before := RuleVisit.before
  after := RuleVisit.after
  dispatch := RuleVisit.dispatch
  depthBound := Rule.depthBound
  generations := fun rules => Rule.listGenerations (rules.map Prod.fst)

/-!
## Edits of syntax trees

The statements, arguments, parameters or elements of a node are edited as a list. What stays keeps its
padding, and the node goes back to its place in the tree.
-/

/-- The visitor that replaces one node. -/
def replaceVisitor : Visitor (Replacement Tree) Unit where
  dispatch := Replacement.dispatch

namespace Tree

/-- The tree with its first node of an identifier replaced. -/
def replaceFirst
    (tree : Tree)
    (target : Stamp)
    (replacement : Tree) : Tree :=
  Replacement.runOn target replacement tree replaceVisitor.run

/-- The nodes of a tree that have a list of elements. -/
def lists (tree : Tree) : List Tree :=
  tree.nodes.filter fun node => node.elements?.isSome

/-- Put the elements that the items stand for into a node, and the node into the tree. -/
def editList
    (tree owner : Tree)
    (items : List (Item Tree)) : Except Error (EditResult Tree) := do
  let elements := RightPadded.elements (owner.elements?.getD [])
  let edited <- owner.withElements (items.filterMap (Item.resolve? elements))
  return ⟨tree.replaceFirst owner.id edited, edited = owner⟩

end Tree

/-!
## Parsing

A source is parsed as a whole or not at all. The lenient form keeps a text that is not in the language as
one unknown node, in a unit that is marked with the failure.
-/

/-- Parse a source; the file name decides the dialect, and only Java is understood. -/
def parse
    (source : Text)
    (path : Path) : Except Error Tree :=
  match Dialect.ofPath path with
  | .python =>
      .error <| .ofCause <| .notImplemented <|
        "parsing the python dialect (".toList ++ path.text ++ [')']
  | .java =>
      match Parser.unit path source with
      | .ok (tree, _) => .ok tree
      | .error fault => .error (fault.toError source)

/-- A unit that holds a source as it is, marked with the reason that it was not parsed. -/
def unparsedUnit
    (source : Text)
    (path : Path)
    (error : Error) : Tree :=
  let fact := Fact.parseFailure "JavaParser".toList error.kind.name error.message
  (Tree.build (.compilationUnit .java ⟨path, none, none⟩
    [.build (.build (.unknown source))] .empty)).withMarkers
    (Markers.empty.add (.build fact))

/-- Parse a source, or keep it as it is. -/
def parseLenient
    (source : Text)
    (path : Path) : Tree :=
  match parse source path with
  | .ok tree => tree
  | .error error => unparsedUnit source path error

namespace Tree

/-- Put what is known about the file on a compilation unit. -/
def withAttributes
    (attributes : Option FileAttributes)
    (tree : Tree) : Tree :=
  match tree.form with
  | .compilationUnit dialect source statements eof =>
      tree.withForm (.compilationUnit dialect { source with attributes } statements eof)
  | _ => tree

/-- What a compilation unit knows about its file. -/
def attributes? (tree : Tree) : Option FileAttributes :=
  match tree.form with
  | .compilationUnit _ source _ _ => source.attributes
  | _ => none

instance : Language Tree PaddingFrame where
  parse := parse
  withAttributes := withAttributes
  attributes? := attributes?
  print := print
  printTrimmed := printTrimmed
  printedBefore? := printedBefore?
  nodes := nodes
  settle := settle
  ruleTraversal := ruleVisitor.traversal

end Tree
end Java
end Lossless
