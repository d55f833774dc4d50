import Lossless.Path
import Lossless.Rule

/-!
# Languages

What a language offers for its trees: a parser, two printers, the nodes in source order, numbering, and the
visitor that applies rules. What works alike for all languages is stated over this class.

An edit replaces the first node with a given identifier by another node, with a visitor that does not go
into the replacement. An edited list of elements is given by items: which of the elements there stay,
with what changed, and which are new.
-/

namespace Lossless

/-- A language with trees of type `τ`, in whose traversals `ω` stands for the paddings. -/
class Language (τ : Type) (ω : outParam Type) extends RuleNode τ where
  /-- Parse a source that is found under a path. -/
  parse : Text -> Path -> Except Error τ
  /-- Put what is known about the file on the root of a source file. -/
  withAttributes : Option FileAttributes -> τ -> τ
  attributes? : τ -> Option FileAttributes
  /-- Print a tree with its markers. -/
  print : τ -> Text
  /-- Print a tree without its markers. -/
  printTrimmed : τ -> Text
  /-- What is printed, with markers, before the syntax of the first node with an identifier. -/
  printedBefore? : τ -> Stamp -> Option Text
  /-- A node and the nodes below it, in source order. -/
  nodes : τ -> List τ
  settle : τ -> Numbering τ
  /-- The traversal that applies rules. -/
  ruleTraversal : Traversal τ ω (RuleSet τ) EventLog

namespace Language

variable [Language τ ω] [Named ω]

/-- Apply rules to a tree in several runs of one visitor. -/
def applyRules
    (rules : List (Rule τ))
    (stop : StopAfter)
    (wanted : List EventKind)
    (runs : Nat)
    (tree : Option τ) : List (RunReport τ ω) :=
  runRepeatedly ((ruleTraversal : Traversal τ ω _ _).visit? tree) runs
    (.start .root stop (Rule.fresh rules) ⟨wanted, []⟩)

/-- The printed form of a source that can be parsed, to be compared with the source. -/
def reprint
    (τ : Type)
    [Language τ ω]
    (source : Text)
    (path : Path) : Except Error Text := do
  let tree : τ <- parse source path
  return printTrimmed tree

end Language
/-! ## Edits in place -/

/-- What is left to replace: the identifier of a node, and what takes its place. -/
abbrev Replacement (τ : Type) := Option (Stamp × τ)

/-- The dispatch of the visitor that replaces one node. -/
def Replacement.dispatch
    [VisitNode τ]
    (descend : τ -> VisitM τ ω (Replacement τ) γ (Option τ))
    (tree : τ) : VisitM τ ω (Replacement τ) γ (Option τ) := do
  match (<- get).own with
  | some (target, replacement) =>
      if Identified.id tree = target then
        modify fun state => { state with own := none }
        return some replacement
      else
        descend tree
  | none => descend tree

/-- Run the visitor that replaces one node; the tree is unchanged when it fails. -/
def Replacement.runOn
    (target : Stamp)
    (replacement tree : τ)
    (visit : τ -> VisitM τ ω (Replacement τ) Unit (Option τ)) : τ :=
  match (visit tree).runFrom (.start .root .never (some (target, replacement)) ()) with
  | (.ok (some replaced), _) => replaced
  | _ => tree

/-- What stands at a place of an edited list. -/
inductive Item (τ : Type)
  /-- The element that was at an index. -/
  | existing (index : Nat)
  | fresh (tree : τ)
  /-- An element with another leading space. -/
  | spaced (index : Nat) (leading : Space)
  | renamed (index : Nat) (text : Text)

/-- The element that an item stands for; nothing when the index is out of range. -/
def Item.resolve?
    [RuleNode τ]
    (elements : List τ) : Item τ -> Option τ
  | existing index => elements[index]?
  | fresh tree => some tree
  | spaced index leading => (elements[index]?).map fun tree => RuleNode.withLeading tree leading
  | renamed index text => (elements[index]?).map fun tree => RuleNode.rename tree text

/-- What an edit did. -/
structure EditResult (τ : Type) where
  tree : τ
  /-- The edited node is the same cell as before. -/
  isSame : Bool

end Lossless
