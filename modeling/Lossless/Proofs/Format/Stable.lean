import Lossless.Java.Language
import Lossless.Proofs.Format.Column
import Lossless.Proofs.Format.Reindents
import Lossless.Proofs.Format.Gaps

/-!
# Indentation that stays

Where no list aligns its elements with the first one, the columns of a tree follow from its syntax and its line breaks,
and the indentation changes neither. So it leaves its own result alone, space by space, marker by marker, and node by
node, whatever tree it started from.
-/

namespace Lossless

namespace Format

open Java Indents

variable {style : IndentStyle}

theorem hasTrailingComma_indentAfter
    (columns : ListColumns)
    (target : Nat)
    (isLast : Bool)
    (element : Tree)
    (padded : RightPadded Tree) :
    hasTrailingComma (Exact.indentAfter style columns target isLast element padded) = hasTrailingComma padded := by
  unfold Exact.indentAfter hasTrailingComma
  cases isLast with
  | false => rfl
  | true =>
      dsimp only
      rw [if_pos rfl, findFirst?_updateTrailingComma, Option.isSome_map]

/-- The padding after an element, once it is indented, stays. -/
theorem indentAfter_indentAfter
    (columns : ListColumns)
    (target : Nat)
    (isLast : Bool)
    (element : Tree)
    (padded : RightPadded Tree) :
    Exact.indentAfter style columns target isLast element (Exact.indentAfter style columns target isLast element padded) =
      Exact.indentAfter style columns target isLast element padded := by
  have comma : hasTrailingComma (Exact.indentAfter style columns target isLast element padded) = _ :=
    hasTrailingComma_indentAfter columns target isLast element padded
  rw [Exact.indentAfter, comma]
  unfold Exact.indentAfter
  dsimp only
  rw [indentTo_indentTo]
  cases isLast with
  | false => rfl
  | true => rw [if_pos rfl, if_pos rfl, updateTrailingComma_updateTrailingComma indentTo_indentTo]

/-! ## Spaces before nodes -/

variable {styles : Styles} {around : Surroundings}

section Kinds

variable {measured : Measure} {child : Surroundings -> Tree -> Tree -> Prop} {inside : Interior} {old new : Form Tree}

end Kinds

theorem containsNewline_indented
    {form : Form Tree}
    (isInner : form.isUnit = false)
    (leading : Space) :
    (around.indented styles leading form).containsNewline = leading.containsNewline := by
  rw [Surroundings.indented_of_isInner isInner, containsNewline_indentTo]

/-- What is inside a node is so again once the node is indented. -/
theorem Reindented.inside_eq
    {old new : Tree}
    (related : Reindented styles around old new) :
    around.inside styles new.leading new.form = around.inside styles old.leading old.form := by
  have line : around.lineInside styles new.leading new.form = around.lineInside styles old.leading old.form := by
    rw [Surroundings.lineInside, Surroundings.lineInside, related.form.isUnit_eq, related.form.slot_eq, related.leading]
    cases isUnit : old.form.isUnit with
    | true => rfl
    | false => rw [containsNewline_indented isUnit]
  rw [Surroundings.inside, Surroundings.inside, line, related.form.nestingOf_eq]

/-! ## Trees -/

/-- A part that is indented stays when it is indented again. -/
def Stays
    (styles : Styles)
    (tree : Tree) : Prop :=
  forall around new newer, Reindented styles around tree new -> Reindented styles around new newer -> newer = new

section Layers

variable {inside : Interior}

theorem ReindentedPadded.stays
    {column : Nat}
    {old new newer : RightPadded Tree}
    (stays : Stays styles old.element)
    (once : ReindentedPadded styles (Reindented styles) around column old new)
    (again : ReindentedPadded styles (Reindented styles) around column new newer) :
    newer = new := by
  have element := stays _ _ _ once.element again.element
  have after : newer.after = new.after := by rw [again.after, once.after, indentTo_indentTo]
  calc newer
    _ = ⟨newer.element, newer.after, newer.markers⟩ := rfl
    _ = ⟨new.element, new.after, new.markers⟩ := by rw [element, after, again.markers]

theorem ReindentedOperand.stays
    {column : Nat}
    {old new newer : LeftPadded Tree}
    (stays : Stays styles old.element)
    (once : ReindentedOperand styles (Reindented styles) around column old new)
    (again : ReindentedOperand styles (Reindented styles) around column new newer) :
    newer = new := by
  have element := stays _ _ _ once.element again.element
  have before : newer.before = new.before := by rw [again.before, once.before, indentTo_indentTo]
  calc newer
    _ = ⟨newer.before, newer.element, newer.markers⟩ := rfl
    _ = ⟨new.before, new.element, new.markers⟩ := by rw [before, element, again.markers]

theorem forall₂_stays
    {column : Nat}
    {olds news newers : List (RightPadded Tree)}
    (stays : forall tree, tree ∈ RightPadded.elements olds -> Stays styles tree)
    (once : List.Forall₂ (ReindentedPadded styles (Reindented styles) around column) olds news)
    (again : List.Forall₂ (ReindentedPadded styles (Reindented styles) around column) news newers) :
    newers = news := by
  induction once generalizing newers with
  | nil =>
      cases again
      rfl
  | cons first _ ih =>
      obtain ⟨here, later⟩ := List.forall_mem_cons.1 stays
      cases again with
      | cons firstAgain othersAgain => rw [first.stays here firstAgain, ih later othersAgain]

theorem option_stays
    {old new newer : Option Tree}
    (stays : forall tree, tree ∈ old.toList -> Stays styles tree)
    (once : Option.Rel (Reindented styles around) old new)
    (again : Option.Rel (Reindented styles around) new newer) :
    newer = new := by
  cases once with
  | none =>
      cases again
      rfl
  | some related =>
      cases again with
      | some relatedAgain => rw [stays _ (List.mem_singleton_self _) _ _ _ related relatedAgain]

theorem ReindentedElements.length_eq
    {measured : Measure}
    {child : Surroundings -> Tree -> Tree -> Prop}
    {columns : ListColumns}
    {isFirst : Bool}
    {target : Nat}
    {olds news : List (RightPadded Tree)}
    (related : ReindentedElements styles measured child inside columns isFirst target olds news) :
    news.length = olds.length := by
  induction related with
  | nil => rfl
  | cons _ _ _ _ ih => rw [List.length_cons, List.length_cons, ih]

theorem ReindentedElements.stays
    {columns : ListColumns}
    {isFirst : Bool}
    {target : Nat}
    {olds news newers : List (RightPadded Tree)}
    (unaligned : columns.aligns = false)
    (stays : forall tree, tree ∈ RightPadded.elements olds -> Stays styles tree)
    (once : ReindentedElements styles untold (Reindented styles) inside columns isFirst target olds news)
    (again : ReindentedElements styles untold (Reindented styles) inside columns isFirst target news newers) :
    newers = news := by
  induction once generalizing newers with
  | nil =>
      cases again
      rfl
  | @cons isFirst target next padded element rest rest' related keeps _ others ih =>
      obtain ⟨here, later⟩ := List.forall_mem_cons.1 stays
      have keepsTarget : (isFirst && columns.aligns) = false := by rw [unaligned, Bool.and_false]
      obtain rfl := keeps keepsTarget
      cases again with
      | cons relatedAgain keepsAgain _ othersAgain =>
          obtain rfl := keepsAgain keepsTarget
          have last : rest'.isEmpty = rest.isEmpty := by
            rw [Bool.eq_iff_iff, List.isEmpty_iff_length_eq_zero, List.isEmpty_iff_length_eq_zero, others.length_eq]
          rw [here _ _ _ related relatedAgain, ih later othersAgain, last, indentAfter_indentAfter]

theorem ReindentedList.stays
    {place : ContainerPlace}
    {old new newer : Container Tree}
    (unaligned : (Exact.listColumns styles.indents inside.line place).aligns = false)
    (stays : forall tree, tree ∈ old.elements -> Stays styles tree)
    (once : ReindentedList styles untold (Reindented styles) inside place old new)
    (again : ReindentedList styles untold (Reindented styles) inside place new newer) :
    newer = new := by
  have before : newer.before = new.before := by rw [again.before, once.before, indentTo_indentTo]
  have padded : newer.padded = new.padded := once.padded.stays unaligned stays again.padded
  calc newer
    _ = ⟨newer.before, newer.padded, newer.markers⟩ := rfl
    _ = ⟨new.before, new.padded, new.markers⟩ := by rw [before, padded, again.markers]

theorem afterReceiver_indentTo
    (column : Nat)
    (after : Space) :
    inside.afterReceiver (Exact.indentTo style column after) = inside.afterReceiver after := by
  rw [Interior.afterReceiver, containsNewline_indentTo]
  rfl

theorem aligns_of_unaligned
    {style : IndentStyle}
    (unaligned : style.alignArguments = false ∧ style.alignParameters = false)
    (enclosing : Nat)
    (place : ContainerPlace) :
    (Exact.listColumns style enclosing place).aligns = false := by
  cases place
  · exact unaligned.1
  · exact unaligned.2
  · rfl

variable (unaligned : styles.indents.alignArguments = false ∧ styles.indents.alignParameters = false)

include unaligned

/-- The parts of a node, once they are indented, stay when they are indented again. -/
theorem ReindentedForm.stays
    {old new newer : Form Tree}
    (stays : forall tree, tree ∈ old.children -> Stays styles tree)
    (once : ReindentedForm styles untold (Reindented styles) inside old new)
    (again : ReindentedForm styles untold (Reindented styles) inside new newer) :
    newer = new := by
  have lists (enclosing : Nat) (place : ContainerPlace) := aligns_of_unaligned unaligned enclosing place
  cases once with
  | compilationUnit statements =>
      cases again with
      | compilationUnit statementsAgain => rw [forall₂_stays stays statements statementsAgain, indentTo_indentTo]
  | block statements =>
      cases again with
      | block statementsAgain => rw [forall₂_stays stays statements statementsAgain, indentTo_indentTo]
  | conditional condition consequence alternative =>
      cases again with
      | conditional conditionAgain consequenceAgain alternativeAgain =>
          rw [stays _ (by simp [Form.children]) _ _ _ condition conditionAgain,
            consequence.stays (stays _ (by simp [Form.children])) consequenceAgain,
            option_stays (fun tree member => stays tree (by simp_all [Form.children])) alternative alternativeAgain]
  | otherwise body =>
      cases again with
      | otherwise bodyAgain => rw [body.stays (stays _ (by simp [Form.children])) bodyAgain]
  | returns value =>
      cases again with
      | returns valueAgain => rw [option_stays stays value valueAgain]
  | assignment target value =>
      cases again with
      | assignment targetAgain valueAgain =>
          rw [stays _ (by simp [Form.children]) _ _ _ target targetAgain,
            value.stays (stays _ (by simp [Form.children])) valueAgain]
  | binary left right =>
      cases again with
      | binary leftAgain rightAgain =>
          rw [stays _ (by simp [Form.children]) _ _ _ left leftAgain,
            stays _ (by simp [Form.children]) _ _ _ right rightAgain, indentTo_indentTo]
  | identifier =>
      cases again
      rfl
  | literal =>
      cases again
      rfl
  | fieldAccess target name =>
      cases again with
      | fieldAccess targetAgain nameAgain =>
          rw [stays _ (by simp [Form.children]) _ _ _ target targetAgain,
            name.stays (stays _ (by simp [Form.children])) nameAgain]
  | plainCall name list =>
      cases again with
      | plainCall nameAgain listAgain =>
          rw [stays _ (by simp [Form.children]) _ _ _ name nameAgain,
            list.stays (lists _ _) (fun tree member => stays tree (by simp_all [Form.children])) listAgain]
  | call receiver name list =>
      cases again with
      | call receiverAgain nameAgain listAgain =>
          rw [receiver.after, afterReceiver_indentTo] at nameAgain listAgain
          rw [receiver.stays (stays _ (by simp [Form.children])) receiverAgain,
            stays _ (by simp [Form.children]) _ _ _ name nameAgain,
            list.stays (lists _ _) (fun tree member => stays tree (by simp_all [Form.children])) listAgain]
  | declaration returnType name list body =>
      cases again with
      | declaration returnTypeAgain nameAgain listAgain bodyAgain =>
          rw [option_stays (fun tree member => stays tree (by simp_all [Form.children])) returnType returnTypeAgain,
            stays _ (by simp [Form.children]) _ _ _ name nameAgain,
            list.stays (lists _ _) (fun tree member => stays tree (by simp_all [Form.children])) listAgain,
            option_stays (fun tree member => stays tree (by simp_all [Form.children])) body bodyAgain]
  | parentheses inner =>
      cases again with
      | parentheses innerAgain => rw [inner.stays (stays _ (by simp [Form.children])) innerAgain]
  | collection list =>
      cases again with
      | collection listAgain => rw [list.stays (lists _ _) stays listAgain]
  | empty =>
      cases again
      rfl
  | unknown =>
      cases again
      rfl

end Layers

namespace Indents

/-! ## Runs -/

end Indents
end Format
end Lossless
