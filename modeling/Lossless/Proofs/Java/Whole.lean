import Lossless.Proofs.Java.Lexeme
import Lossless.Proofs.Java.Written
import Lossless.Proofs.Text.Lines

/-!
# Line breaks stay within pieces

What a canonical tree is printed as tears no line break apart: no token ends with a carriage return, and neither does
any text of a space. So if every line feed of the whole comes right after a carriage return, it does so in every piece.
-/

namespace Lossless

/-- No line break goes on behind a text of the piece. -/
def Piece.IsWhole {π : Type} : Piece π -> Prop
  | space _ content => content.IsPaired
  | token text => text.endsInReturn = false
  | start _ _ => True
  | finish _ => True

namespace Text

theorem endsInReturn_of_notMem
    {text : Text}
    (noReturn : '\r' ∉ text) :
    text.endsInReturn = false := by
  induction text with
  | nil => rfl
  | cons first rest ih =>
      rw [List.mem_cons, not_or] at noReturn
      cases rest with
      | nil => exact beq_eq_false_iff_ne.2 (Ne.symm noReturn.1)
      | cons second more => exact ih noReturn.2

theorem endsInReturn_of_all
    {text : Text}
    {test : Char -> Bool}
    (outside : test '\r' = false)
    (all : text.all test = true) :
    text.endsInReturn = false :=
  endsInReturn_of_notMem fun member => by
    rw [List.all_eq_true.1 all _ member] at outside
    cases outside

end Text

namespace Java

open Pieces

/-! ## Tokens -/

theorem isWhole_of_isName
    {name : Text}
    (named : isName name = true) :
    name.endsInReturn = false :=
  Text.endsInReturn_of_all (by decide) (isName_iff.1 named).2

/-- A quoted literal ends with its quote, and has no line feed in it. -/
theorem exists_of_splitQuoted?
    {quote : Char}
    {escaped : Bool}
    {text body after : Text}
    (found : splitQuoted? quote escaped text = some (body, after)) :
    exists front, body = front ++ [quote] ∧ '\n' ∉ front := by
  induction text generalizing escaped body with
  | nil => cases found
  | cons first rest ih =>
      have onwards {escaped : Bool} (noFeed : first ≠ '\n') (found : ((splitQuoted? quote escaped rest).map
          fun parts => (first :: parts.1, parts.2)) = some (body, after)) :
          exists front, body = front ++ [quote] ∧ '\n' ∉ front := by
        obtain ⟨⟨inner, left⟩, innerFound, equal⟩ := Option.map_eq_some_iff.1 found
        obtain ⟨rfl, rfl⟩ := Prod.mk.inj equal
        obtain ⟨front, rfl, noneInside⟩ := ih innerFound
        exact ⟨first :: front, rfl, List.not_mem_cons_of_ne_of_not_mem noFeed.symm noneInside⟩
      unfold splitQuoted? at found
      split at found
      · next isEscape =>
          rw [Bool.and_eq_true, decide_eq_true_eq] at isEscape
          exact onwards (by rw [isEscape.1]; decide) found
      · split at found
        · cases found
        · next noFeed =>
            split at found
            · next isEnd =>
                obtain ⟨rfl, rfl⟩ : [first] = body ∧ rest = after := by simpa using found
                rw [Bool.and_eq_true, decide_eq_true_eq] at isEnd
                exact ⟨[], by rw [isEnd.1]; rfl, List.not_mem_nil⟩
            · exact onwards noFeed found

theorem isWhole_of_isQuoted
    {source : Text}
    (quoted : isQuoted source = true) :
    source.endsInReturn = false := by
  cases source with
  | nil => cases quoted
  | cons first rest =>
      simp only [isQuoted, Bool.and_eq_true, Bool.or_eq_true, decide_eq_true_eq] at quoted
      obtain ⟨front, body, -⟩ := exists_of_splitQuoted? quoted.2
      have ends : (first :: rest) = (first :: front) ++ [first] := by rw [body]; rfl
      rw [ends, Text.endsInReturn_append _ (List.cons_ne_nil _ _)]
      rcases quoted.1 with rfl | rfl <;> rfl

theorem isWhole_of_isNumber
    {source : Text}
    (isNumber : isNumber source = true) :
    source.endsInReturn = false := by
  refine Text.endsInReturn_of_notMem fun member => ?_
  cases source with
  | nil => cases isNumber
  | cons first rest =>
      simp only [Java.isNumber, Bool.and_eq_true] at isNumber
      rcases List.mem_cons.1 member with rfl | inside
      · cases isNumber.1
      · cases List.all_eq_true.1 isNumber.2 _ inside

theorem isWhole_of_literal
    {source : Text}
    (isLiteral : (isLiteralWord source || isNumber source || isQuoted source) = true) :
    source.endsInReturn = false := by
  rw [Bool.or_eq_true, Bool.or_eq_true] at isLiteral
  rcases isLiteral with (word | number) | quoted
  · simp only [isLiteralWord, Bool.or_eq_true, decide_eq_true_eq] at word
    rcases word with (rfl | rfl) | rfl <;> rfl
  · exact isWhole_of_isNumber number
  · exact isWhole_of_isQuoted quoted

/-- Words that are kept end with a name. -/
theorem isWhole_of_areWords
    {text : Text}
    (areWords : AreWords text) :
    text.endsInReturn = false := by
  obtain ⟨first, more, named, -, spaced, rfl⟩ := areWords
  have whole := isWhole_of_isName named
  clear named
  induction more generalizing first with
  | nil => simpa [writtenWords] using whole
  | cons pair rest ih =>
      obtain ⟨here, later⟩ := List.forall_mem_cons.1 spaced
      have next : (first ++ (pair.1 ++ pair.2)).endsInReturn = false := by
        rw [← List.append_assoc, Text.endsInReturn_append _ (ne_nil_of_isName here.1)]
        exact isWhole_of_isName here.1
      rw [writtenWords, List.flatMap_cons, ← List.append_assoc]
      exact ih _ later next

theorem isWhole_symbol (operator : Operator) : (operator.symbol .java).endsInReturn = false := by
  cases operator <;> rfl

/-! ## Pieces -/

/-- No piece tears a line break apart. -/
def AllWhole (pieces : Pieces) : Prop :=
  forall piece, piece ∈ pieces -> piece.IsWhole

section Pieces

variable {pieces more : Pieces}

theorem allWhole_append : AllWhole (pieces ++ more) ↔ AllWhole pieces ∧ AllWhole more :=
  List.forall_mem_append

theorem allWhole_cons {piece : Piece SpacePlace} : AllWhole (piece :: pieces) ↔ piece.IsWhole ∧ AllWhole pieces :=
  List.forall_mem_cons

theorem allWhole_nil : AllWhole [] := nofun

theorem allWhole_statement
    (place : ElementPlace)
    {padded : RightPadded Tree}
    (element : AllWhole (padded.element.pieces .java))
    (after : padded.after.IsPaired) :
    AllWhole (statement .java place (padded.map (Tree.printed .java))) := by
  unfold statement
  refine allWhole_append.2 ⟨element, allWhole_cons.2 ⟨after, ?_⟩⟩
  split
  · exact allWhole_cons.2 ⟨rfl, allWhole_nil⟩
  · exact allWhole_nil

theorem allWhole_statements
    (place : ElementPlace)
    {list : List (RightPadded Tree)}
    (elements : forall child, child ∈ RightPadded.elements list -> AllWhole (child.pieces .java))
    (after : forall padded, padded ∈ list -> padded.after.IsPaired) :
    AllWhole ((list.map (·.map (Tree.printed .java))).flatMap (statement .java place)) := by
  intro piece member
  rw [List.flatMap_map] at member
  obtain ⟨padded, isStatement, inside⟩ := List.mem_flatMap.1 member
  exact allWhole_statement place (elements _ (List.mem_map_of_mem isStatement)) (after padded isStatement) piece inside

theorem mem_findAll
    {select : Fact Space -> Option Space}
    {markers : Markers Space}
    {suffix : Space}
    (found : markers.findFirst? select = some suffix) :
    suffix ∈ markers.findAll select := by
  obtain ⟨marker, member, selected⟩ := List.exists_of_findSome?_eq_some found
  exact List.mem_filterMap.2 ⟨marker, member, selected⟩

theorem allWhole_listElements
    (place : ElementPlace)
    {list : List (RightPadded Tree)}
    (elements : forall child, child ∈ RightPadded.elements list -> AllWhole (child.pieces .java))
    (gaps : forall space, space ∈ elementGaps list -> space.IsPaired) :
    AllWhole (listElements place (list.map (·.map (Tree.printed .java)))) := by
  induction list with
  | nil => exact allWhole_nil
  | cons first rest ih =>
      simp only [elementGaps, List.flatMap_cons, List.forall_mem_append, List.forall_mem_cons] at gaps
      obtain ⟨⟨after, suffixes⟩, later⟩ := gaps
      obtain ⟨element, others⟩ := List.forall_mem_cons.1 elements
      cases rest with
      | nil =>
          refine allWhole_append.2 ⟨element, allWhole_cons.2 ⟨after, ?_⟩⟩
          unfold trailingComma
          split
          · next suffix found =>
              exact allWhole_cons.2 ⟨rfl, allWhole_cons.2 ⟨suffixes suffix (mem_findAll found), allWhole_nil⟩⟩
          · exact allWhole_nil
      | cons second more =>
          rw [List.map_cons, List.map_cons, listElements]
          · refine allWhole_append.2 ⟨element, allWhole_cons.2 ⟨after, allWhole_cons.2 ⟨rfl, ?_⟩⟩⟩
            exact ih others later
          · exact List.cons_ne_nil _ _

theorem allWhole_container
    (place : ContainerPlace)
    {delimiters : Text × Text}
    {list : Container Tree}
    (delimited : delimiters.1.endsInReturn = false ∧ delimiters.2.endsInReturn = false)
    (elements : forall child, child ∈ list.elements -> AllWhole (child.pieces .java))
    (gaps : forall space, space ∈ list.before :: elementGaps list.padded -> space.IsPaired) :
    AllWhole (container place delimiters (list.map (Tree.printed .java))) := by
  obtain ⟨before, inside⟩ := List.forall_mem_cons.1 gaps
  refine allWhole_cons.2 ⟨before, allWhole_cons.2 ⟨delimited.1, allWhole_append.2 ⟨?_, ?_⟩⟩⟩
  · exact allWhole_listElements _ elements inside
  · exact allWhole_cons.2 ⟨delimited.2, allWhole_nil⟩

theorem allWhole_option
    {child : Option Tree}
    (present : forall tree, tree ∈ child.toList -> AllWhole (tree.pieces .java)) :
    AllWhole (Pieces.option (child.map (Tree.printed .java))) := by
  cases child with
  | none => exact allWhole_nil
  | some tree => exact present tree (by simp)

/-- The parts of a canonical node tear no line break apart. -/
theorem allWhole_form
    {form : Form Tree}
    (canonical : form.IsCanonical)
    (children : forall child, child ∈ form.children -> AllWhole (child.pieces .java)) :
    AllWhole (Pieces.form .java (form.map (Tree.printed .java))) := by
  have gaps (space : Space) (member : space ∈ form.gaps) : space.IsPaired := (canonical.gaps space member).paired
  have fits := canonical.fits
  cases form with
  | compilationUnit dialect source statements eof =>
      refine allWhole_append.2 ⟨allWhole_statements _ children fun padded member => ?_, ?_⟩
      · exact gaps _ (List.mem_map_of_mem member)
      · exact allWhole_cons.2 ⟨(canonical.eof eof rfl).paired, allWhole_nil⟩
  | block statements closing =>
      obtain ⟨atEnd, after⟩ := List.forall_mem_cons.1 gaps
      refine allWhole_cons.2 ⟨rfl, allWhole_append.2 ⟨allWhole_append.2 ⟨?_, ?_⟩, allWhole_cons.2 ⟨rfl, allWhole_nil⟩⟩⟩
      · exact allWhole_statements _ children fun padded member => after _ (List.mem_map_of_mem member)
      · exact allWhole_cons.2 ⟨atEnd, allWhole_nil⟩
  | conditional condition consequence alternative =>
      refine allWhole_cons.2 ⟨rfl, allWhole_append.2 ⟨allWhole_append.2 ⟨?_, ?_⟩, ?_⟩⟩
      · exact children condition (by simp [Form.children])
      · exact allWhole_statement _ (children consequence.element (by simp [Form.children])) (gaps _ (by simp [Form.gaps]))
      · exact allWhole_option fun tree member => children tree (by simp_all [Form.children])
  | otherwise body =>
      exact allWhole_cons.2 ⟨rfl, allWhole_statement _ (children body.element (by simp [Form.children]))
        (gaps _ (by simp [Form.gaps]))⟩
  | returns value => exact allWhole_cons.2 ⟨rfl, allWhole_option children⟩
  | assignment target value typeTag =>
      refine allWhole_append.2 ⟨children target (by simp [Form.children]), ?_⟩
      exact allWhole_cons.2 ⟨gaps _ (by simp [Form.gaps]), allWhole_cons.2 ⟨rfl,
        children value.element (by simp [Form.children])⟩⟩
  | binary left operator right typeTag =>
      refine allWhole_append.2 ⟨children left (by simp [Form.children]), ?_⟩
      exact allWhole_cons.2 ⟨gaps _ (by simp [Form.gaps]), allWhole_cons.2 ⟨isWhole_symbol operator.element,
        children right (by simp [Form.children])⟩⟩
  | identifier name typeTag => exact allWhole_cons.2 ⟨isWhole_of_isName fits.1, allWhole_nil⟩
  | literal source typeTag => exact allWhole_cons.2 ⟨isWhole_of_literal fits.1, allWhole_nil⟩
  | fieldAccess target name typeTag =>
      refine allWhole_append.2 ⟨children target (by simp [Form.children]), ?_⟩
      exact allWhole_cons.2 ⟨gaps _ (by simp [Form.gaps]), allWhole_cons.2 ⟨rfl,
        children name.element (by simp [Form.children])⟩⟩
  | call callee name arguments typeTag =>
      refine allWhole_append.2 ⟨allWhole_append.2 ⟨?_, children name (by simp [Form.children])⟩, ?_⟩
      · cases callee with
        | none => exact allWhole_nil
        | some padded =>
            refine allWhole_append.2 ⟨children padded.element (by simp [Form.children]), ?_⟩
            exact allWhole_cons.2 ⟨gaps _ (by simp [Form.gaps]), allWhole_cons.2 ⟨rfl, allWhole_nil⟩⟩
      · exact allWhole_container _ ⟨rfl, rfl⟩ (fun child member => children child (by simp [Form.children, member]))
          fun space member => gaps space (List.mem_append_right _ member)
  | declaration returnType name parameters body =>
      refine allWhole_append.2 ⟨allWhole_append.2 ⟨allWhole_append.2 ⟨?_, children name (by simp [Form.children])⟩, ?_⟩, ?_⟩
      · exact allWhole_option fun tree member => children tree (by simp_all [Form.children])
      · exact allWhole_container _ ⟨rfl, rfl⟩ (fun child member => children child (by simp [Form.children, member])) gaps
      · exact allWhole_option fun tree member => children tree (by simp_all [Form.children])
  | parentheses inner =>
      refine allWhole_cons.2 ⟨rfl, allWhole_append.2 ⟨children inner.element (by simp [Form.children]), ?_⟩⟩
      exact allWhole_cons.2 ⟨gaps _ (by simp [Form.gaps]), allWhole_cons.2 ⟨rfl, allWhole_nil⟩⟩
  | collection kind elements typeTag =>
      refine allWhole_container _ ?_ children gaps
      cases kind <;> exact ⟨rfl, rfl⟩
  | empty => exact allWhole_nil
  | unknown text => exact allWhole_cons.2 ⟨isWhole_of_areWords fits, allWhole_nil⟩

end Pieces

/-- A canonical tree is printed without tearing a line break apart. -/
theorem Tree.allWhole_pieces
    {tree : Tree}
    (canonical : tree.IsCanonical)
    (leading : tree.leading.IsPaired) :
    AllWhole (tree.pieces .java) := by
  induction tree using Tree.induction with
  | step head form ih =>
      obtain ⟨atRoot, below⟩ := (isCanonical_iff _).1 canonical
      have children (child : Tree) (member : child ∈ form.children) : AllWhole (child.pieces .java) :=
        ih child member (below child member) (atRoot.leading child member).paired
      rw [pieces_node]
      exact allWhole_cons.2 ⟨leading, allWhole_cons.2 ⟨trivial, allWhole_append.2 ⟨allWhole_form atRoot children,
        allWhole_cons.2 ⟨trivial, allWhole_nil⟩⟩⟩⟩

end Java
end Lossless
