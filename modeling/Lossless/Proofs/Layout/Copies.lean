import Lossless.Proofs.Java.Numbered
import Lossless.Proofs.Layout.Changed

/-!
# Copies of a tree

Renewing and numbering make other cells of the same content. A copy of a canonical tree is laid out as the tree
itself, whatever its surroundings.
-/

namespace Lossless
namespace Format

open Java

/-- Spaces of the same content, in any place. -/
def SameSpace (_ : SpacePlace) (old new : Space) : Prop :=
  new.renewed = old.renewed

/-- Spaces of the same content that can be read; nothing stands before a unit. -/
structure NumberedSpace
    (place : SpacePlace)
    (old new : Space) : Prop where
  same : SameSpace place old new
  isGap : ∃ final, old.IsGapTo final
  isEmpty : place = .compilationUnitPrefix -> old.isEmpty = true

/-- Trees of the same content, in any surroundings. -/
abbrev Copied
    (styles : Styles)
    (old new : Tree) : Prop :=
  Changed styles SameSpace old new

/-! ## Renewed trees -/

section Renewed

variable {styles : Styles} {child : Tree -> Tree -> Prop} {copy : Tree -> Tree}

theorem copiedMarkers_renewed (markers : Markers Space) : ChangedMarkers SameSpace markers markers.renewed := by
  unfold ChangedMarkers SameSpace Markers.renewed
  rw [Markers.toList_withMarkers]
  refine ⟨fun none => by simp [none], fun marker suffix only isComma => ?_⟩
  refine ⟨.build (.trailingComma suffix.renewed), suffix.renewed, ?_, rfl, Space.renewed_renewed suffix⟩
  simp [only, isComma, Fact.renewed]

theorem copiedPadded_renewed
    {place : ElementPlace}
    {padded : RightPadded Tree}
    (children : child padded.element (copy padded.element)) :
    ChangedPadded SameSpace child place padded (padded.renewed copy) :=
  ⟨children, Space.renewed_renewed padded.after, copiedMarkers_renewed padded.markers⟩

theorem copiedOperand_renewed
    {place : OperandPlace}
    {padded : LeftPadded Tree}
    (children : child padded.element (copy padded.element)) :
    ChangedOperand SameSpace child place padded (padded.renewed copy) :=
  ⟨Space.renewed_renewed padded.before, children, copiedMarkers_renewed padded.markers⟩

theorem copiedList_renewed
    {place : ElementPlace}
    {list : List (RightPadded Tree)}
    (children : forall tree, tree ∈ RightPadded.elements list -> child tree (copy tree)) :
    List.Forall₂ (ChangedPadded SameSpace child place) list (list.map (·.renewed copy)) := by
  induction list with
  | nil => exact .nil
  | cons first rest ih =>
      obtain ⟨here, later⟩ := List.forall_mem_cons.1 children
      exact .cons (copiedPadded_renewed here) (ih later)

theorem copiedContainer_renewed
    {place : ContainerPlace}
    {list : Container Tree}
    (children : forall tree, tree ∈ list.elements -> child tree (copy tree)) :
    ChangedContainer SameSpace child place list (list.renewed copy) :=
  ⟨Space.renewed_renewed list.before, copiedList_renewed children, copiedMarkers_renewed list.markers⟩

theorem copiedOption_renewed
    {tree : Option Tree}
    (children : forall present, present ∈ tree.toList -> child present (copy present)) :
    Option.Rel child tree (tree.map copy) := by
  cases tree with
  | none => exact .none
  | some present => exact .some (children present (List.mem_singleton_self present))

/-- A renewed form is a copy when its children are. -/
theorem copiedForm_renewed
    {form : Form Tree}
    (children : forall tree, tree ∈ form.children -> child tree (copy tree)) :
    ChangedForm SameSpace child form (form.renewed copy) := by
  cases form with
  | compilationUnit dialect source statements eof =>
      exact .compilationUnit (copiedList_renewed children) (Space.renewed_renewed eof)
  | block statements closing =>
      exact .block (copiedList_renewed children) (Space.renewed_renewed closing)
  | conditional condition consequence alternative =>
      simp only [Form.children, List.forall_mem_cons] at children
      exact .conditional children.1 (copiedPadded_renewed children.2.1) (copiedOption_renewed children.2.2)
  | otherwise body => exact .otherwise (copiedPadded_renewed (children _ (List.mem_singleton_self _)))
  | returns value => exact .returns (copiedOption_renewed children)
  | assignment target value typeTag =>
      exact .assignment (children _ (by simp [Form.children]))
        (copiedOperand_renewed (children _ (by simp [Form.children])))
  | binary left operator right typeTag =>
      exact .binary (children _ (by simp [Form.children])) (Space.renewed_renewed operator.before) rfl
        (copiedMarkers_renewed operator.markers) (children _ (by simp [Form.children]))
  | identifier name typeTag => exact .identifier
  | literal source typeTag => exact .literal
  | fieldAccess target name typeTag =>
      exact .fieldAccess (children _ (by simp [Form.children]))
        (copiedOperand_renewed (children _ (by simp [Form.children])))
  | call receiver name list typeTag =>
      refine .call ?_ (children _ (by simp [Form.children]))
        (copiedContainer_renewed fun tree member => children tree (by simp [Form.children, member]))
      cases receiver with
      | none => exact .none
      | some receiver => exact .some (copiedPadded_renewed (children _ (by simp [Form.children])))
  | declaration returnType name list body =>
      refine .declaration (copiedOption_renewed fun tree member => children tree ?_)
        (children _ (by simp [Form.children]))
        (copiedContainer_renewed fun tree member => children tree ?_)
        (copiedOption_renewed fun tree member => children tree ?_)
      all_goals simp [Form.children, member]
  | parentheses inner => exact .parentheses (copiedPadded_renewed (children _ (List.mem_singleton_self _)))
  | collection kind list typeTag => exact .collection (copiedContainer_renewed children)
  | empty => exact .empty
  | unknown text => exact .unknown

/-- A canonical tree is laid out as the same tree made anew. -/
theorem copied_renewed
    {tree : Tree}
    (canonical : tree.IsCanonical)
    (unmarked : tree.markers.toList = []) :
    Copied styles tree tree.renewed := by
  refine changed_of_nodes
    (fun old new => old.IsCanonical ∧ old.markers.toList = [] ∧ new = old.renewed) ?_
    ⟨canonical, unmarked, rfl⟩
  rintro ⟨head, form⟩ _ ⟨canonical, unmarked, rfl⟩
  rw [Tree.renewed_node]
  refine ⟨Space.renewed_renewed head.leading, unmarked, copiedMarkers_renewed head.markers,
    copiedForm_renewed fun tree member => ?_, canonical.root.fits⟩
  exact ⟨(canonical.part member).canonical, (canonical.part member).unmarked, rfl⟩

end Renewed

/-! ## Numbered trees -/

section Settled

variable {styles : Styles} {child : Tree -> Tree -> Prop} {copy : Tree -> Numbering Tree}

/-- A space that is not before a unit, numbered. -/
theorem numberedSpace_settle
    {place : SpacePlace}
    {space : Space}
    {final : Bool}
    (noPrefix : place ≠ .compilationUnitPrefix)
    (isGap : space.IsGapTo final)
    (next : Nat) :
    NumberedSpace place space (space.settle.run next).1 :=
  ⟨Space.renewed_settle isGap next, ⟨final, isGap⟩, fun isPrefix => absurd isPrefix noPrefix⟩

theorem numberedMarkers_settle
    {markers : Markers Space}
    (gaps : forall space, space ∈ markers.findAll Fact.trailingComma? -> space.IsGap)
    (next : Nat) :
    ChangedMarkers NumberedSpace markers ((markers.settle Space.settle).run next).1 := by
  obtain ⟨stamp, id, list⟩ := markers
  constructor
  · rintro rfl
    rfl
  · rintro marker suffix rfl isComma
    obtain ⟨markerStamp, markerId, fact⟩ := marker
    obtain rfl : fact = .trailingComma suffix := isComma
    have noPrefix : SpacePlace.trailingCommaSuffix ≠ .compilationUnitPrefix := nofun
    refine ⟨_, _, rfl, rfl, numberedSpace_settle noPrefix (gaps suffix ?_) _⟩
    simp [Markers.findAll, Fact.trailingComma?]

theorem numberedMarkers_settle_of_unmarked
    {markers : Markers Space}
    (unmarked : markers.toList = [])
    (next : Nat) :
    ChangedMarkers NumberedSpace markers ((markers.settle Space.settle).run next).1 :=
  numberedMarkers_settle (by simp [Markers.findAll, unmarked]) next

theorem numberedPadded_settle
    {place : ElementPlace}
    {padded : RightPadded Tree}
    (children : forall next, child padded.element ((copy padded.element).run next).1)
    (gaps : forall space, space ∈ Java.elementGaps [padded] -> space.IsGap)
    (next : Nat) :
    ChangedPadded NumberedSpace child place padded ((padded.settle copy).run next).1 := by
  simp only [Java.elementGaps, List.flatMap_cons, List.flatMap_nil, List.append_nil,
    List.forall_mem_cons] at gaps
  exact ⟨children _, numberedSpace_settle (isInner_after place).1 gaps.1 _, numberedMarkers_settle gaps.2 _⟩

theorem numberedOperand_settle
    {place : OperandPlace}
    {padded : LeftPadded Tree}
    (children : forall next, child padded.element ((copy padded.element).run next).1)
    (isGap : padded.before.IsGap)
    (unmarked : padded.markers.toList = [])
    (next : Nat) :
    ChangedOperand NumberedSpace child place padded ((padded.settle copy).run next).1 :=
  ⟨numberedSpace_settle (isInner_beforeOperand place).1 isGap _, children _,
    numberedMarkers_settle_of_unmarked unmarked _⟩

theorem numberedList_settle
    {place : ElementPlace}
    {list : List (RightPadded Tree)}
    (children : forall tree, tree ∈ RightPadded.elements list -> forall next,
      child tree ((copy tree).run next).1)
    (gaps : forall space, space ∈ Java.elementGaps list -> space.IsGap)
    (next : Nat) :
    List.Forall₂ (ChangedPadded NumberedSpace child place) list ((list.mapM (RightPadded.settle copy)).run next).1 := by
  induction list generalizing next with
  | nil => exact .nil
  | cons first rest ih =>
      obtain ⟨here, later⟩ := List.forall_mem_cons.1 children
      obtain ⟨gapsHere, gapsLater⟩ := List.forall_mem_append.1 gaps
      rw [List.mapM_cons]
      refine .cons (numberedPadded_settle here ?_ _) (ih later gapsLater _)
      simpa [Java.elementGaps] using gapsHere

theorem numberedContainer_settle
    {place : ContainerPlace}
    {list : Container Tree}
    (children : forall tree, tree ∈ list.elements -> forall next, child tree ((copy tree).run next).1)
    (gaps : forall space, space ∈ list.before :: Java.elementGaps list.padded -> space.IsGap)
    (unmarked : list.markers.toList = [])
    (next : Nat) :
    ChangedContainer NumberedSpace child place list ((list.settle copy).run next).1 :=
  ⟨numberedSpace_settle (isInner_beforeList place).1 (gaps _ (List.mem_cons_self ..)) _,
    numberedList_settle children (fun space member => gaps space (List.mem_cons_of_mem _ member)) _,
    numberedMarkers_settle_of_unmarked unmarked _⟩

theorem numberedOption_settle
    {tree : Option Tree}
    (children : forall present, present ∈ tree.toList -> forall next,
      child present ((copy present).run next).1)
    (next : Nat) :
    Option.Rel child tree ((Form.settleOption copy tree).run next).1 := by
  cases tree with
  | none => exact .none
  | some present => exact .some (children present (List.mem_singleton_self present) _)

/-- Beside statements without markers stand the spaces after them alone. -/
theorem elementGaps_of_unmarked
    {list : List (RightPadded Tree)}
    (unmarked : forall padded, padded ∈ list -> padded.markers.toList = []) :
    Java.elementGaps list = list.map fun padded => padded.after := by
  induction list with
  | nil => rfl
  | cons first rest ih =>
      obtain ⟨here, later⟩ := List.forall_mem_cons.1 unmarked
      have alone : first.markers.findAll Fact.trailingComma? = [] := by simp [Markers.findAll, here]
      rw [List.map_cons, ← ih later]
      simp [Java.elementGaps, alone]

/-- A numbered form is a copy when its children are. -/
theorem numberedForm_settle
    {form : Form Tree}
    (children : forall tree, tree ∈ form.children -> forall next,
      child tree ((copy tree).run next).1)
    (canonical : form.IsCanonical)
    (next : Nat) :
    ChangedForm NumberedSpace child form ((form.settle copy).run next).1 := by
  obtain ⟨fits, -, gaps, eofIsGap, -, -⟩ := canonical
  cases form with
  | compilationUnit dialect source statements eof =>
      have unmarked padded member := (fits.2.1 padded member).2
      rw [Form.gaps, ← elementGaps_of_unmarked unmarked] at gaps
      have noPrefix : SpacePlace.compilationUnitEof ≠ .compilationUnitPrefix := by decide
      exact .compilationUnit (numberedList_settle children gaps _) (numberedSpace_settle noPrefix (eofIsGap eof rfl) _)
  | block statements closing =>
      have unmarked padded member := (fits.1 padded member).2
      rw [Form.gaps, ← elementGaps_of_unmarked unmarked] at gaps
      obtain ⟨closingIsGap, gaps⟩ := List.forall_mem_cons.1 gaps
      have noPrefix : SpacePlace.blockEnd ≠ .compilationUnitPrefix := by decide
      exact .block (numberedList_settle children gaps _) (numberedSpace_settle noPrefix closingIsGap _)
  | conditional condition consequence alternative =>
      simp only [Form.children, List.forall_mem_cons] at children
      refine .conditional (children.1 _) (numberedPadded_settle children.2.1 ?_ _)
        (numberedOption_settle children.2.2 _)
      rw [elementGaps_of_unmarked (List.forall_mem_singleton.2 fits.2.1.2)]
      exact gaps
  | otherwise body =>
      refine .otherwise (numberedPadded_settle (children _ (List.mem_singleton_self _)) ?_ _)
      rw [elementGaps_of_unmarked (List.forall_mem_singleton.2 fits.2)]
      exact gaps
  | returns value => exact .returns (numberedOption_settle children _)
  | assignment target value typeTag =>
      simp only [Form.children, List.forall_mem_cons] at children
      exact .assignment (children.1 _)
        (numberedOperand_settle children.2.1 (gaps _ (List.mem_singleton_self _)) fits.2.2.1 _)
  | binary left operator right typeTag =>
      simp only [Form.children, List.forall_mem_cons] at children
      have noPrefix : SpacePlace.binaryOperator ≠ .compilationUnitPrefix := by decide
      exact .binary (children.1 _) (numberedSpace_settle noPrefix (gaps _ (List.mem_singleton_self _)) _) rfl
        (numberedMarkers_settle_of_unmarked fits.2.2.1 _) (children.2.1 _)
  | identifier name typeTag => exact .identifier
  | literal source typeTag => exact .literal
  | fieldAccess target name typeTag =>
      simp only [Form.children, List.forall_mem_cons] at children
      exact .fieldAccess (children.1 _)
        (numberedOperand_settle children.2.1 (gaps _ (List.mem_singleton_self _)) fits.2.2.1 _)
  | call receiver name list typeTag =>
      obtain ⟨receiverGaps, listGaps⟩ := List.forall_mem_append.1 gaps
      refine .call ?_ (children _ (by simp [Form.children]) _)
        (numberedContainer_settle (fun tree member => children tree (by simp [Form.children, member]))
          listGaps fits.2.2.1.1 _)
      cases receiver with
      | none => exact .none
      | some receiver =>
          refine .some (numberedPadded_settle (children _ (by simp [Form.children])) ?_ _)
          rw [elementGaps_of_unmarked (List.forall_mem_singleton.2 fits.1.2)]
          exact receiverGaps
  | declaration returnType name list body =>
      refine .declaration (numberedOption_settle (fun tree member => children tree ?_) _)
        (children _ (by simp [Form.children]) _)
        (numberedContainer_settle (fun tree member => children tree ?_) gaps fits.2.2.1.1 _)
        (numberedOption_settle (fun tree member => children tree ?_) _)
      all_goals simp [Form.children, member]
  | parentheses inner =>
      refine .parentheses (numberedPadded_settle (children _ (List.mem_singleton_self _)) ?_ _)
      rw [elementGaps_of_unmarked (List.forall_mem_singleton.2 fits.2)]
      exact gaps
  | collection kind list typeTag =>
      exact .collection (numberedContainer_settle children gaps fits.2.1.1 _)
  | empty => exact .empty
  | unknown text => exact .unknown

/-- A tree that can be read, before which nothing stands if it is a unit, is laid out as the same tree numbered. -/
theorem numbered_settle
    {tree : Tree}
    (part : tree.IsPart)
    (isEmpty : tree.form.isUnit = true -> tree.leading.isEmpty = true)
    (next : Nat) :
    Changed styles NumberedSpace tree (tree.settle.run next).1 := by
  refine changed_of_nodes (fun old new => old.IsPart ∧ (old.form.isUnit = true -> old.leading.isEmpty = true) ∧
    ∃ next, new = (old.settle.run next).1) ?_ ⟨part, isEmpty, next, rfl⟩
  rintro ⟨head, form⟩ _ ⟨part, isEmpty, next, rfl⟩
  rw [Tree.settle_node]
  have leading (next : Nat) : NumberedSpace form.leadingPlace head.leading (head.leading.settle.run next).1 :=
    ⟨Space.renewed_settle part.leading next, ⟨_, part.leading⟩, fun isPrefix =>
      isEmpty (Bool.of_not_eq_false fun isInner => (leadingPlace_isInner isInner).1 isPrefix)⟩
  refine ⟨leading _, part.unmarked, numberedMarkers_settle_of_unmarked part.unmarked _, ?_, part.canonical.root.fits⟩
  refine numberedForm_settle (fun child member next => ?_) part.canonical.root _
  refine ⟨part.canonical.part member, fun isUnit => ?_, next, rfl⟩
  have isInner := part.canonical.root.fits.isUnit_child child member
  rw [isInner] at isUnit
  cases isUnit

end Settled

end Format
end Lossless
