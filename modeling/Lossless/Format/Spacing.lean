import Lossless.Format.Pass

/-!
# Spacing inside a line

Blanks beside parentheses, operators, commas and braces. Only a gap that is made of blanks alone changes;
one with a comment, a line break or another character stays as it is.
-/

namespace Lossless
namespace Format

open Java

/-- Make a gap of blanks one blank or nothing. -/
def updateSpace
    (wanted : Bool)
    (space : Space) : Space :=
  if space.comments = [] && space.whitespace.all (fun char => char = ' ') then
    if wanted then .single else .empty
  else
    space

/-- Make the gap before a node one blank or nothing. -/
def spaceBefore
    (wanted : Bool)
    (tree : Tree) : Tree :=
  tree.withLeading (updateSpace wanted tree.leading)

/-- The gaps of one kind of delimited list. -/
structure ListSpacing where
  /-- Before the opening delimiter. -/
  before : Bool
  /-- Inside the delimiters. -/
  within : Bool
  /-- Inside the delimiters of a list without elements. -/
  withinEmpty : Bool

/-- The element is an empty node. -/
def isEmptyElement (padded : RightPadded Tree) : Bool :=
  match padded.element.form with
  | .empty => true
  | _ => false

/-- Set the suffix of the first trailing comma of a marker set. -/
def updateTrailingComma
    (change : Space -> Space)
    (markers : Markers Space) : Markers Space :=
  match markers.toList.find? fun marker => marker.fact.trailingComma?.isSome with
  | none => markers
  | some comma =>
      match comma.fact with
      | .trailingComma suffix =>
          if change suffix = suffix then markers
          else
            markers.setByKind Fact.trailingComma?
              (comma.withFact (.trailingComma (change suffix)))
      | _ => markers

/-- A trailing comma follows the element. -/
def hasTrailingComma (padded : RightPadded Tree) : Bool :=
  (padded.markers.findFirst? Fact.trailingComma?).isSome

/-- Space the elements of a list, given the gap before the next one. -/
def spaceElements
    (style : BesidePunctuation)
    (within : Bool)
    (leading : Bool) : List (RightPadded Tree) -> List (RightPadded Tree)
  | [] => []
  | [last] =>
      let after := if hasTrailingComma last then style.beforeComma else within
      [⟨spaceBefore leading last.element, updateSpace after last.after,
        updateTrailingComma (updateSpace within) last.markers⟩]
  | padded :: rest =>
      ⟨spaceBefore leading padded.element, updateSpace style.beforeComma padded.after,
        padded.markers⟩ :: spaceElements style within style.afterComma rest

/-- Space a delimited list. -/
def spaceContainer
    (style : SpacingStyle)
    (spacing : ListSpacing)
    (list : Container Tree) : Container Tree :=
  let padded :=
    match list.padded with
    | [only] =>
        if isEmptyElement only then
          [{ only with element := spaceBefore spacing.withinEmpty only.element }]
        else
          spaceElements style.punctuation spacing.within spacing.within [only]
    | elements => spaceElements style.punctuation spacing.within spacing.within elements
  ⟨updateSpace spacing.before list.before, padded, list.markers⟩

/-- Whether a blank stands on both sides of an operator. -/
def aroundOperator
    (style : AroundOperators)
    (operator : Operator) : Bool :=
  if operator.isAdditive then style.additive
  else if operator.isMultiplicative then style.multiplicative
  else if operator.isEquality then style.equality
  else if operator.isRelational then style.relational
  else true

/-- A block right below a node of this kind is the body of the node. -/
def ownsBody : Form Tree -> Bool
  | .declaration .. | .conditional .. | .otherwise .. => true
  | _ => false

/-- The node is a parenthesised expression. -/
def isParentheses (tree : Tree) : Bool :=
  match tree.form with
  | .parentheses _ => true
  | _ => false

/-- Space the gaps that a node governs. -/
def spaceNode
    (style : SpacingStyle)
    (cursor : TreeCursor)
    (tree : Tree) : Tree :=
  let dialect := enclosingDialect cursor
  match tree.form with
  | .call receiver name arguments typeTag =>
      let spacing : ListSpacing :=
        ⟨style.beforeParentheses.call, style.within.call, style.within.emptyCall⟩
      tree.withForm (.call receiver name (spaceContainer style spacing arguments) typeTag)
  | .declaration returnType name parameters body =>
      let spacing : ListSpacing :=
        ⟨style.beforeParentheses.declaration, style.within.declaration,
          style.within.emptyDeclaration⟩
      tree.withForm
        (.declaration returnType name (spaceContainer style spacing parameters) body)
  | .collection kind elements typeTag =>
      let spacing : ListSpacing := ⟨false, style.within.brackets, false⟩
      tree.withForm (.collection kind (spaceContainer style spacing elements) typeTag)
  | .assignment target value typeTag =>
      let around := style.aroundOperators.assignment
      let value : LeftPadded Tree :=
        ⟨updateSpace around value.before, spaceBefore around value.element, value.markers⟩
      tree.withForm (.assignment target value typeTag)
  | .binary left operator right typeTag =>
      let around := aroundOperator style.aroundOperators operator.element
      let operator := { operator with before := updateSpace around operator.before }
      tree.withForm (.binary left operator (spaceBefore around right) typeTag)
  | .block _ _ =>
      let owner := (cursor.parentTree?.bind Cursor.tree?).map Tree.form
      if owner.any ownsBody then
        let wanted :=
          match dialect with
          | .java => style.punctuation.beforeLeftBrace
          | .python => style.punctuation.beforeColon
        tree.withLeading (updateSpace wanted tree.leading)
      else
        tree
  | .conditional condition consequence alternative =>
      if dialect = .java && isParentheses condition then
        let condition := spaceBefore style.beforeParentheses.conditional condition
        tree.withForm (.conditional condition consequence alternative)
      else
        tree
  | .otherwise _ =>
      if dialect = .java then tree.withLeading (updateSpace true tree.leading) else tree
  | _ => tree

/-- Space the gaps inside lines. -/
def spaces (style : SpacingStyle) : Pass :=
  .ofNodes (spaceNode style)

end Format
end Lossless
