import Lossless.Json.Grammar
import Lossless.Json.Pieces
import Lossless.Json.Visitor
import Lossless.Language

/-!
# The language of data trees

How data trees are parsed, ruled and edited in place.
-/

namespace Lossless
namespace Json

/-!
## Rules on data trees

The visitor that applies rules to data trees. The name of a space is its whitespace; spaces have no kinds.
-/

/-- What a document says about its file. -/
def Tree.sourceSummary? (tree : Tree) : Option SourceSummary :=
  match tree.form with
  | .document source _ eof =>
      some ⟨"json".toList, source.path.text, source.charset, source.attributes.isSome, eof⟩
  | _ => none

instance : RuleNode Tree where
  text := Tree.text
  withLeading := Tree.withLeading
  markers := Tree.markers
  withMarkers := Tree.withMarkers
  rename := Tree.rename
  withTypeTag := fun tree _ => tree
  height := Tree.height
  sourceSummary? := Tree.sourceSummary?

/-- The visitor that applies rules. -/
def ruleVisitor : Visitor (RuleSet Tree) EventLog where
  space := RuleVisit.space []
  marker := RuleVisit.marker
  accepts := RuleVisit.accepts
  acceptsSource := RuleVisit.acceptsSource
  before := RuleVisit.before
  after := RuleVisit.after
  dispatch := RuleVisit.dispatch
  depthBound := Rule.depthBound
  generations := fun rules => Rule.listGenerations (rules.map Prod.fst)

/-!
## Edits of data trees

An edit names a place of a document by the keys and positions that lead to it, changes what stands there,
and puts the result back into the document.
-/

/-- A step from an object or an array to a value in it. -/
inductive Step
  | key (name : Text)
  | position (index : Nat)
  deriving DecidableEq

/-- Where a walk has arrived, and the last member on the way. -/
structure Destination where
  value : Tree
  member : Option Tree

/-- What is done at a place. -/
inductive Change
  /-- Give the literal there another value. -/
  | set (value : Scalar)
  /-- Put the elements that items stand for into the object or array there. -/
  | items (items : List (Item Tree))
  /-- Rename the key of the last member on the way. -/
  | renameKey (text : Text)
  /-- Give the last member on the way another value. -/
  | value (tree : Tree)

/-- Why an edit is not done. -/
inductive EditFailure
  /-- Nothing stands at the place. -/
  | missing
  /-- A node of this kind does not take the change. -/
  | unsupported (kind : Text)
  | failed (error : Error)

/-- The visitor that replaces one node. -/
def replaceVisitor : Visitor (Replacement Tree) Unit where
  dispatch := Replacement.dispatch

namespace Destination

/-- One step further. -/
def advance?
    (destination : Destination) : Step -> Option Destination
  | .key name => do
      let member <- destination.value.member? name
      return ⟨<- member.value?, some member⟩
  | .position index =>
      match destination.value.form with
      | .array values => do
          let value <- (RightPadded.elements values)[index]?
          return { destination with value }
      | _ => none

/-- Walk along steps. -/
def walk?
    (destination : Destination) : List Step -> Option Destination
  | [] => some destination
  | step :: rest => (destination.advance? step).bind fun next => walk? next rest

/-- The node that a change edits, and what it becomes. -/
def change
    (destination : Destination)
    (change : Change) : Except EditFailure (Tree × Tree) :=
  let value := destination.value
  match change, value.form, destination.member with
  | .set scalar, .literal .., _ => .ok (value, value.withScalar scalar)
  | .items items, .object _, _ | .items items, .array _, _ =>
      let elements := RightPadded.elements (value.elements?.getD [])
      match value.withElements (items.filterMap (Item.resolve? elements)) with
      | .ok edited => .ok (value, edited)
      | .error error => .error (.failed error)
  | .renameKey text, _, some member => .ok (member, member.renameKey text)
  | .value tree, _, some member => .ok (member, member.withMemberValue tree)
  | _, _, _ => .error (.unsupported value.kindName)

end Destination

namespace Tree

/-- The tree with its first node of an identifier replaced. -/
def replaceFirst
    (tree : Tree)
    (target : Stamp)
    (replacement : Tree) : Tree :=
  Replacement.runOn target replacement tree replaceVisitor.run

/-- Change what stands at a place of a document. -/
def editAt
    (tree : Tree)
    (steps : List Step)
    (change : Change) : Except EditFailure (EditResult Tree) :=
  match tree.value?.bind fun value => Destination.walk? ⟨value, none⟩ steps with
  | none => .error .missing
  | some destination => do
      let (old, edited) <- destination.change change
      return ⟨tree.replaceFirst old.id edited, edited = old⟩

end Tree

/-! ## Parsing -/

namespace Tree

/-- Put what is known about the file on a document. -/
def withAttributes
    (attributes : Option FileAttributes)
    (tree : Tree) : Tree :=
  match tree.form with
  | .document source value eof => tree.withForm (.document { source with attributes } value eof)
  | _ => tree

/-- What a document knows about its file. -/
def attributes? (tree : Tree) : Option FileAttributes :=
  match tree.form with
  | .document source _ _ => source.attributes
  | _ => none

instance : Language Tree PaddingFrame where
  parse := parse
  withAttributes := withAttributes
  attributes? := attributes?
  print := print
  printTrimmed := printTrimmed
  printedBefore? := printedBefore?
  nodes := nodes
  settle := settle
  ruleTraversal := ruleVisitor.traversal

end Tree
end Json
end Lossless
