import Lossless.Config.Value

/-!
# Nodes

What a document describes. A node may have an anchor, and an alias stands for the node with an anchor, which
may even enclose the alias. Settings lie at a bounded depth, so following aliases that often is enough to
read them.
-/

namespace Lossless
namespace Config
namespace Yaml

/-- What is written at a place. Anchors are numbers here. -/
inductive Node
  /-- An alias. -/
  | reference (anchor : Nat)
  | anchored (anchor : Nat) (node : Node)
  | scalar (written : Scalar)
  | sequence (elements : List Node)
  | mapping (entries : List (Node × Node))

namespace Node

/-- A node where nothing is written. -/
def absent : Node := .scalar .absent

mutual

/-- The nodes that have an anchor, in the order in which they start. -/
def anchors : Node -> List (Nat × Node)
  | reference _ => []
  | anchored anchor node => (anchor, node) :: node.anchors
  | scalar _ => []
  | sequence elements => anchorsOfAll elements
  | mapping entries => anchorsOfEntries entries

/-- The nodes with an anchor in the elements of a sequence. -/
def anchorsOfAll : List Node -> List (Nat × Node)
  | [] => []
  | node :: rest => node.anchors ++ anchorsOfAll rest

/-- The nodes with an anchor in the entries of a mapping. -/
def anchorsOfEntries : List (Node × Node) -> List (Nat × Node)
  | [] => []
  | (key, node) :: rest => key.anchors ++ node.anchors ++ anchorsOfEntries rest

end

/-! ## Values -/

mutual

/-- The value that a node describes, when it is known what the aliases stand for. A mapping with a key that
is no scalar is no table of settings. -/
def toValueWith (follow : Nat -> Value) : Node -> Value
  | reference anchor => follow anchor
  | anchored _ node => node.toValueWith follow
  | scalar written => .scalar written
  | sequence elements => .list (valuesWith follow elements)
  | mapping entries => (entriesWith? follow entries).elim .other .table

/-- The values of the elements of a sequence. -/
def valuesWith (follow : Nat -> Value) : List Node -> List Value
  | [] => []
  | node :: rest => node.toValueWith follow :: valuesWith follow rest

/-- The named values of the entries of a mapping. -/
def entriesWith? (follow : Nat -> Value) : List (Node × Node) -> Option (List (Text × Value))
  | [] => some []
  | (key, node) :: rest =>
      match (key.toValueWith follow).text?, entriesWith? follow rest with
      | some name, some entries => some ((name, node.toValueWith follow) :: entries)
      | _, _ => none

end

/-- What is known of the values of aliases. -/
abbrev Targets := List (Nat × Value)

/-- What an alias stands for. -/
def Targets.follow (targets : Targets) (anchor : Nat) : Value :=
  (targets.lookup anchor).getD .other

/-- The values of the nodes with an anchor, in which aliases are followed so often. -/
def targets (anchors : List (Nat × Node)) : Nat -> Targets
  | 0 => []
  | depth + 1 =>
      let inner := targets anchors depth
      anchors.map fun (anchor, node) => (anchor, node.toValueWith inner.follow)

/-- No setting lies in more collections than this. -/
def settingDepth : Nat := 3

/-- The value that a node describes, as far as settings can tell. Of several nodes with one anchor the last
one counts. -/
def toValue (node : Node) : Value :=
  node.toValueWith (targets node.anchors.reverse settingDepth).follow

end Node
end Yaml
end Config
end Lossless
