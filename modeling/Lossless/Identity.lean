/-!
# Identity

Trees are immutable, so an edit makes a new cell beside the old one. A stamp tells such cells apart when
their contents agree, and a node's identifier, which is a stamp too, survives every edit of the node.

A cell is made with a `pending` stamp; numbering a finished tree replaces each pending stamp by the next
unused number. The one empty space, the one single blank and the one empty marker set are `canonical`.
-/

namespace Lossless

/-- What tells two cells of equal content apart. -/
inductive Stamp
  /-- Made since the last numbering. -/
  | pending
  /-- The one shared cell of its content. -/
  | canonical
  /-- Numbered. -/
  | settled (number : Nat)
  deriving DecidableEq

/-- Numbering draws unused numbers in order. -/
abbrev Numbering := StateM Nat

namespace Stamp

/-- Give a pending stamp the next unused number. -/
def settle : Stamp -> Numbering Stamp
  | pending => fun next => (settled next, next + 1)
  | canonical => pure canonical
  | settled number => pure (settled number)

end Stamp
end Lossless
