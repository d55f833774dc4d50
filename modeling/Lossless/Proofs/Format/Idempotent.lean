import Lossless.Format.Auto
import Lossless.Proofs.Format.Fixpoint.Whitespace
import Lossless.Proofs.Format.Gaps
import Lossless.Proofs.Format.Remade
import Lossless.Proofs.Format.Spaced

/-!
# Passes that make no more of their own results

A pass over spaces leaves its result alone when its change of each single space does. A pass over nodes does when its
change settles: hoisting and separating leave the spaces before the children alone the second time, and spacing writes
the space before a block and before an `else` twice, once for the node and once for what is around it.
-/

namespace Lossless
namespace Format

open Java Text

section OwnSpace

variable {κ : Type} {change : NodeChange κ}

/-- The space before a node is written by what is around it alone. -/
abbrev leaves (_ : κ) (_ : Form Tree) (space : Space) : Space := space

/-- The tree is one of these, after any space. -/
def IsOneOf
    (trees : List Tree)
    (tree : Tree) : Prop :=
  exists old space, old ∈ trees ∧ tree = old.withLeading space

theorem IsOneOf.itself
    {trees : List Tree}
    {tree : Tree}
    (member : tree ∈ trees) :
    IsOneOf trees tree :=
  ⟨tree, tree.leading, member, tree.withLeading_self.symm⟩

theorem IsOneOf.mono
    {trees others : List Tree}
    {tree : Tree}
    (isOne : IsOneOf trees tree)
    (within : forall tree, tree ∈ trees -> tree ∈ others) :
    IsOneOf others tree := by
  obtain ⟨old, space, member, same⟩ := isOne
  exact ⟨old, space, within old member, same⟩

end OwnSpace

/-- What separating makes of the statements of blocks and units, which are in a dialect. -/
def separating : NodeChange Dialect where
  below := fun dialect form =>
    match form with
    | .compilationUnit dialect _ _ _ => dialect
    | _ => dialect
  leading := fun _ _ space => space
  form := fun dialect form =>
    match form with
    | .block statements closing => .block (separateStatements dialect (dialect = .java) statements) closing
    | .compilationUnit dialect source statements eof =>
        .compilationUnit dialect source (separateStatements dialect true statements) eof
    | _ => form

theorem enclosingDialect_push
    (cursor : TreeCursor)
    (tree : Tree) :
    enclosingDialect (cursor.push (.tree tree)) = separating.below (enclosingDialect cursor) tree.form := by
  obtain ⟨head, form⟩ := tree
  cases form <;> rfl

/-- What spacing knows of the nodes around a node. -/
structure SpacingContext where
  dialect : Dialect
  /-- A block would be the body of the node around it. -/
  owned : Bool

/-- The blank that a node wants before itself, if it says so. -/
def ownBlank
    (style : SpacingStyle)
    (around : SpacingContext) : Form Tree -> Option Bool
  | .block .. =>
      if around.owned then
        match around.dialect with
        | .java => some style.punctuation.beforeLeftBrace
        | .python => some style.punctuation.beforeColon
      else none
  | .otherwise _ => if around.dialect = .java then some true else none
  | _ => none

/-- A space with a blank in it, if one is wanted or not wanted. -/
def spaceWith
    (blank : Option Bool)
    (space : Space) : Space :=
  match blank with
  | none => space
  | some wanted => updateSpace wanted space

/-- What a node makes of the gaps in it. -/
def spacedForm
    (style : SpacingStyle)
    (dialect : Dialect) : Form Tree -> Form Tree
  | .call receiver name arguments typeTag =>
      let spacing : ListSpacing := ⟨style.beforeParentheses.call, style.within.call, style.within.emptyCall⟩
      .call receiver name (spaceContainer style spacing arguments) typeTag
  | .declaration returnType name parameters body =>
      let spacing : ListSpacing :=
        ⟨style.beforeParentheses.declaration, style.within.declaration, style.within.emptyDeclaration⟩
      .declaration returnType name (spaceContainer style spacing parameters) body
  | .collection kind elements typeTag =>
      .collection kind (spaceContainer style ⟨false, style.within.brackets, false⟩ elements) typeTag
  | .assignment target value typeTag =>
      let around := style.aroundOperators.assignment
      .assignment target ⟨updateSpace around value.before, spaceBefore around value.element, value.markers⟩ typeTag
  | .binary left operator right typeTag =>
      let around := aroundOperator style.aroundOperators operator.element
      .binary left { operator with before := updateSpace around operator.before } (spaceBefore around right) typeTag
  | .conditional condition consequence alternative =>
      if dialect = .java && isParentheses condition then
        .conditional (spaceBefore style.beforeParentheses.conditional condition) consequence alternative
      else .conditional condition consequence alternative
  | form => form

/-- What spacing makes of nodes. -/
def spacing (style : SpacingStyle) : NodeChange SpacingContext where
  below := fun around form => ⟨separating.below around.dialect form, ownsBody form⟩
  leading := fun around form => spaceWith (ownBlank style around form)
  form := fun around form => spacedForm style around.dialect form

/-- What a cursor tells of the nodes around a part. -/
def spacingContext (cursor : TreeCursor) : SpacingContext where
  dialect := enclosingDialect cursor
  owned := ((nodesOf cursor).head?.bind FrameValue.tree?).any fun tree => ownsBody tree.form

theorem spaceNode_eq
    {style : SpacingStyle}
    {around : SpacingContext}
    {cursor : TreeCursor}
    {tree : Tree}
    (dialect : tree.form.isUnit = false -> enclosingDialect cursor = around.dialect)
    (owned : (cursor.parentTree?.bind Cursor.tree?).any (fun tree => ownsBody tree.form) = around.owned) :
    spaceNode style cursor tree = (spacing style).close around tree := by
  obtain ⟨head, form⟩ := tree
  have stays (form : Form Tree) :
      Java.Tree.node head form = (Java.Tree.node head form).revise head.leading head.markers form :=
    (Tree.revise_self _).symm
  cases form with
  | compilationUnit => exact stays _
  | block statements closing =>
      obtain ⟨aroundDialect, aroundOwned⟩ := around
      have isOwned : ((cursor.parentTree?.bind Cursor.tree?).map Tree.form).any ownsBody = aroundOwned := by
        rw [Option.any_map]
        exact owned
      simp only [spaceNode, Tree.form, isOwned, dialect rfl]
      cases aroundOwned with
      | true => cases aroundDialect <;> rfl
      | false => exact stays _
  | conditional condition consequence alternative =>
      simp only [spaceNode, Tree.form, dialect rfl, NodeChange.close, spacing, spacedForm]
      split
      · rfl
      · exact stays _
  | otherwise body =>
      simp only [spaceNode, Tree.form, dialect rfl, NodeChange.close, spacing, ownBlank, spacedForm]
      split
      · rfl
      · exact stays _
  | assignment target value typeTag => rfl
  | binary left operator right typeTag => rfl
  | call receiver name arguments typeTag => rfl
  | declaration returnType name parameters body => rfl
  | collection kind elements typeTag => rfl
  | _ => exact stays _

theorem spacing_isReadBy (style : SpacingStyle) : (spacing style).IsReadBy spacingContext (spaceNode style) where
  padding := fun cursor place => by
    have nodes : nodesOf (cursor.push (.padding place)) = nodesOf cursor := rfl
    rw [spacingContext, nodes]
    rfl
  below := fun cursor tree => by
    have nodes : nodesOf (cursor.push (.tree tree)) = .tree tree :: nodesOf cursor := rfl
    rw [spacingContext, nodes, enclosingDialect_push]
    rfl
  close := fun cursor tree replace => by
    refine spaceNode_eq (fun noUnit => ?_) ?_
    · rw [Tree.withForm, Tree.form_revise] at noUnit
      rw [enclosingDialect_push]
      cases atForm : tree.form with
      | compilationUnit =>
          rw [atForm] at noUnit
          cases noUnit
      | _ => rfl
    · rw [parentTree?_eq (Cursor.values_push cursor _)]
      rfl

theorem updateSpace_updateSpace
    (wanted blank : Bool)
    (space : Space) :
    updateSpace wanted (updateSpace blank space) = updateSpace wanted space := by
  by_cases isBlank : (space.comments = [] && space.whitespace.all fun char => char = ' ') = true
  · have written : updateSpace blank space = if blank then .single else .empty := if_pos isBlank
    rw [written, updateSpace, updateSpace, if_pos isBlank]
    cases blank <;> rfl
  · have stays : updateSpace blank space = space := if_neg isBlank
    rw [stays]

theorem updateSpace_spaceWith
    (wanted : Bool)
    (blank : Option Bool)
    (space : Space) :
    updateSpace wanted (spaceWith blank space) = updateSpace wanted space := by
  cases blank with
  | none => rfl
  | some blank => exact updateSpace_updateSpace wanted blank space

/-- The space before a node, as the node itself writes it. -/
def leads
    (style : SpacingStyle)
    (around : SpacingContext)
    (tree : Tree) : Tree :=
  tree.withLeading (spaceWith (ownBlank style around tree.form) tree.leading)

section Lists

variable {style : SpacingStyle} {around : SpacingContext}

/-- The only element of a list that has none. -/
theorem spaceContainer_of_isEmpty
    {spacing : ListSpacing}
    {before : Space}
    {only : RightPadded Tree}
    {markers : Markers Space}
    (isEmpty : isEmptyElement only = true) :
    spaceContainer style spacing ⟨before, [only], markers⟩ =
      ⟨updateSpace spacing.before before, [{ only with element := spaceBefore spacing.withinEmpty only.element }],
        markers⟩ := by
  simp only [spaceContainer, isEmpty, if_true]

theorem spaceContainer_of_elements
    {spacing : ListSpacing}
    {before : Space}
    {padded : List (RightPadded Tree)}
    {markers : Markers Space}
    (areElements : forall only, padded = [only] -> isEmptyElement only = false) :
    spaceContainer style spacing ⟨before, padded, markers⟩ =
      ⟨updateSpace spacing.before before, spaceElements style.punctuation spacing.within spacing.within padded,
        markers⟩ := by
  match padded, areElements with
  | [], _ => rfl
  | [only], areElements => simp only [spaceContainer, areElements only rfl, Bool.false_eq_true, if_false]
  | _ :: _ :: _, _ => rfl

end Lists

section Forms

variable {style : SpacingStyle} {around : SpacingContext}

theorem ownBlank_map
    (change : Tree -> Tree)
    (form : Form Tree) :
    ownBlank style around (form.map change) = ownBlank style around form := by
  cases form <;> rfl

end Forms

end Format
end Lossless
