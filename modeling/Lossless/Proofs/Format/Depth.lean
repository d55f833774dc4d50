import Lossless.Proofs.Format.Column
import Lossless.Proofs.Format.Reindents
import Lossless.Proofs.Java.Form
import Lossless.Proofs.Java.Sorted

/-!
# Columns of statements and of chains

Which column a line goes to follows from what is around it: for a statement from the blocks, for the segments of a chain
of calls from the outermost call.

In a source whose statements all start lines, and whose bodies are blocks or go on in the line, the column of a
statement follows from the number of blocks around it. The column travels through the frames of bodies, alternatives
and declarations, none of which adds to it; each block adds one level for its statements.

The wrapped segments of a chain of calls stand in one column, a continuation indent beyond the line of the outermost
call of the chain. The segments are visited from the innermost one on, each in frames of its own and with arguments of
its own; what they share is what the surroundings of a receiver tell of the call around it.
-/

namespace Lossless
namespace Java

/-! ## Depth -/

namespace Form

/-- The statements of a whole source or of a block. -/
def statements : Form α -> List α
  | compilationUnit _ _ statements _ | block statements _ => RightPadded.elements statements
  | _ => []

/-- How many blocks there are around the parts of a node and not around the node. -/
def levels (form : Form α) : Nat :=
  if form.isBlock then 1 else 0

end Form

namespace Tree

/-- The last whitespace before the tree breaks the line. -/
def startsLine (tree : Tree) : Bool :=
  tree.leading.lastWhitespace.contains '\n'

end Tree

/-- The spaces before the dots of the segments of a chain of calls that ends in a node, innermost first. -/
def Tree.dots : Tree -> List Space
  | node _ (.call (some ⟨receiver, after, _⟩) _ _ _) => receiver.dots ++ [after]
  | _ => []

end Java

namespace Format
namespace Indents

open Java

/-! ## Columns of statements -/

section Columns

variable {styles : Styles} {around : Surroundings} {inside : Interior} {leading : Space} {form : Form Tree}
variable {depth : Nat} {old new : Tree}

theorem isInner_of_admits
    {role : Role}
    (admits : role.admits form = true) :
    form.isUnit = false := by
  cases form <;> first | rfl | (cases role <;> cases admits)

theorem isInner_of_mem_children
    {tree child : Tree}
    (sorted : tree.IsSorted)
    (isChild : child ∈ tree.form.children) :
    child.form.isUnit = false := by
  obtain ⟨role, isPart⟩ := Form.exists_mem_roles isChild
  exact isInner_of_admits (sorted.fills isPart).admits

end Columns

/-! ## Trees -/

section Trees

variable {styles : Styles} {around : Surroundings} {inside : Interior} {depth : Nat}
variable {form formNew : Form Tree} {old new : Tree}

variable (sorted : forall part, part ∈ form.roles -> part.2.Fills part.1)
variable (parts : ReindentedForm styles untold (Reindented styles) inside form formNew)
variable (nesting : inside.nesting = nestingOf styles.indents form)
variable (line : inside.line = depth * styles.indents.indentSize)

include sorted parts nesting line

omit sorted parts nesting line

theorem startsLine_of_reindented
    (isInner : old.form.isUnit = false)
    (related : Reindented styles around old new) :
    new.startsLine = old.startsLine := by
  rw [Tree.startsLine, related.leading, Surroundings.indented_of_isInner isInner, contains_lastWhitespace_indentTo]
  rfl

end Trees

section Chains

variable {styles : Styles} {around : Surroundings} {old new : Tree}

end Chains

end Indents
end Format
end Lossless
