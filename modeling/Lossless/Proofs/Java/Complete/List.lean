import Lossless.Proofs.Java.FirstWord
import Lossless.Proofs.Java.Numbered
import Lossless.Proofs.Java.Sound.List

/-!
# Delimited lists are read back

`IsComplete` says that a parser reads every written tree of a kind back, as a new tree, where the text ends
the tree. A delimited list of such trees is read back too. How long a text can be is bounded, since the
parsers of nested syntax are.
-/

namespace Lossless
namespace Java

open Lossless.Parser
open Java.Parser

variable {text rest : Text} {leading : Space} {tree : Tree}

/-! ## Where a tree ends -/

/-- The signs that end a value or a parameter. -/
def closers : List Char := [')', ']', ',', ';']

/-- Behind the next gap stands a sign that ends a value. -/
def EndsValue (text : Text) : Prop :=
  ∃ (space : Space) (close : Char) (after : Text),
    space.IsGap ∧ close ∈ closers ∧ text = space.render .slash ++ close :: after

theorem EndsValue.of_gap
    {space : Space}
    {close : Char}
    (isGap : space.IsGap)
    (member : close ∈ closers)
    (after : Text) :
    EndsValue (space.render .slash ++ close :: after) :=
  ⟨space, close, after, isGap, member, rfl⟩

theorem mem_punctuation_of_mem_closers
    {close : Char}
    (member : close ∈ closers) :
    close ∈ punctuation := by
  have all : closers.all (· ∈ punctuation) = true := by decide
  exact of_decide_eq_true (List.all_eq_true.1 all close member)

/-- A sign between words goes on with a token, unless it is a slash. -/
theorem isSolid_of_punctuation
    {first : Char}
    (member : first ∈ punctuation)
    (notSlash : first ≠ '/')
    (after : Text) :
    Text.isSolid (first :: after) = true :=
  Text.isSolid_cons (Text.eq_false_of_mem (by decide) member) notSlash after

theorem isSolid_of_closer
    {close : Char}
    (member : close ∈ closers)
    (after : Text) :
    Text.isSolid (close :: after) = true := by
  refine isSolid_of_punctuation (mem_punctuation_of_mem_closers member) ?_ after
  rintro rfl
  revert member
  decide

/-- A parser reads written trees of a kind back, in texts that are shorter than a bound. -/
def IsComplete
    (test : Form Tree -> Bool)
    (bound : Nat)
    (element : Space -> Parser Tree) : Prop :=
  forall {leading : Space} {tree : Tree} {rest : Text},
    tree.IsCanonical -> test tree.form = true -> EndsValue rest ->
      (tree.form.written ++ rest).length < bound ->
        element leading (tree.form.written ++ rest) = .ok (tree.placed leading, rest)

/-! ## Markers of the last element -/

theorem writtenTrailingComma_of_toList
    {markers : Markers Space}
    (none : markers.toList = []) :
    writtenTrailingComma markers = [] := by
  simp [writtenTrailingComma, Markers.findFirst?, none]

section TrailingComma

variable {markers : Markers Space} {marker : Marker Space} {suffix : Space}
variable (only : markers.toList = [marker])
variable (isComma : marker.fact = .trailingComma suffix)

include only isComma

theorem writtenTrailingComma_of_comma :
    writtenTrailingComma markers = ',' :: suffix.render .slash := by
  simp [writtenTrailingComma, Markers.findFirst?, only, isComma, Fact.trailingComma?]

theorem renewed_of_comma : markers.renewed = trailingCommaMarkers suffix.renewed := by
  simp [Markers.renewed, only, isComma, Fact.renewed, trailingCommaMarkers, Markers.add]

end TrailingComma

/-! ## Elements -/

/-- A child that is a part of a canonical tree is renewed after its own space. -/
theorem Tree.IsPart.renewed
    (part : tree.IsPart) :
    tree.renewed = tree.placed tree.leading.renewed :=
  renewed_eq_placed part.unmarked

theorem exists_writtenElements
    (first : RightPadded Tree)
    (others : List (RightPadded Tree)) :
    ∃ behind, writtenElements (first :: others) = first.element.written ++ behind := by
  cases others with
  | nil => exact ⟨_, by rw [writtenElements, List.append_assoc]⟩
  | cons second more => exact ⟨_, by rw [writtenElements_cons (by simp), List.append_assoc]⟩

section Elements

variable {test : Form Tree -> Bool} {bound : Nat} {element : Space -> Parser Tree}
variable (complete : IsComplete test bound element)
variable (kinds : forall {form}, test form = true -> form.isValue = true ∨ form.isWords = true)

include kinds in
/-- The space before an element is read back. -/
theorem gap_element
    (part : tree.IsPart)
    (kind : test tree.form = true)
    (rest : Text) :
    gap (tree.written ++ rest) = .ok (tree.leading.renewed, tree.form.written ++ rest) := by
  have starts := startsIn_opensValue part.canonical (kinds kind)
  have solid := isSolid_of_opensValue (Text.startsIn_append starts rest)
  rw [Tree.written_eq, List.append_assoc]
  exact gap_render part.leading solid fun isFinal => by cases isFinal

/-- A closing delimiter, or the comma before it, ends the last element. -/
theorem endsValue_last
    {after : Space}
    {markers : Markers Space}
    {close : Char}
    (isGap : after.IsGap)
    (member : close ∈ closers)
    (trailing : IsTrailing markers)
    (rest : Text) :
    EndsValue (after.render .slash ++ (writtenTrailingComma markers ++ close :: rest)) := by
  rcases trailing with none | ⟨marker, suffix, only, isComma⟩
  · rw [writtenTrailingComma_of_toList none]
    exact .of_gap isGap member rest
  · rw [writtenTrailingComma_of_comma only isComma]
    exact .of_gap isGap (by decide) _

include complete kinds

/-- An element and the gap behind it are read back. -/
theorem bind_element
    {next : Tree -> Space -> Parser β}
    {after : Space}
    (part : tree.IsPart)
    (kind : test tree.form = true)
    (isGap : after.IsGap)
    (solid : rest.isSolid = true)
    (ends : EndsValue (after.render .slash ++ rest))
    (short : (tree.written ++ (after.render .slash ++ rest)).length < bound) :
    (do
      let leading <- gap
      let first <- element leading
      let after <- gap
      next first after) (tree.written ++ (after.render .slash ++ rest)) =
        next tree.renewed after.renewed rest := by
  have readElement : element tree.leading.renewed
      (tree.form.written ++ (after.render .slash ++ rest)) =
        .ok (tree.placed tree.leading.renewed, after.render .slash ++ rest) := by
    refine complete part.canonical kind ends ?_
    simp only [tree.written_eq, List.length_append] at short ⊢
    omega
  rw [bind_of_ok (gap_element kinds part kind _), bind_of_ok readElement,
    bind_of_ok (gap_render isGap solid fun isFinal => by cases isFinal), part.renewed]

/-- The last element is read back up to the closing delimiter, with a comma behind it or without one. -/
theorem listElements_last
    {close : Char}
    (closes : close = ')' ∨ close = ']')
    {fuel : Nat}
    {last : RightPadded Tree}
    (sound : SoundElements test [last])
    (short : (writtenElements [last] ++ close :: rest).length < bound) :
    listElements [close] element (fuel + 1) (writtenElements [last] ++ close :: rest) =
      .ok ([last.renewed Tree.renewed], rest) := by
  obtain ⟨isCloser, notComma⟩ : close ∈ closers ∧ close ≠ ',' := by
    rcases closes with rfl | rfl <;> decide
  obtain ⟨last, after, markers⟩ := last
  have part : last.IsPart := sound.parts last (by simp [RightPadded.elements])
  have isGap : after.IsGap := sound.gaps after (by simp [elementGaps])
  obtain ⟨kind, trailing⟩ : test last.form = true ∧ IsTrailing markers := sound.fits
  have solid := isSolid_of_closer isCloser rest
  have ends := endsValue_last isGap isCloser trailing rest
  have whole : writtenElements [⟨last, after, markers⟩] ++ close :: rest =
      last.written ++ (after.render .slash ++ (writtenTrailingComma markers ++ close :: rest)) := by
    simp [writtenElements]
  rw [whole] at short ⊢
  rcases trailing with none | ⟨marker, suffix, only, isComma⟩
  · rw [writtenTrailingComma_of_toList none, List.nil_append] at short ends ⊢
    have noComma : accept [','] (close :: rest) = .ok (false, close :: rest) :=
      accept_of_none (by simp [Text.dropStart?, Ne.symm notComma])
    rw [listElements, bind_element complete kinds part kind isGap solid ends short,
      bind_of_ok noComma, if_neg Bool.false_ne_true, bind_of_ok (accept_cons _ _), if_pos rfl, run_pure]
    simp [RightPadded.renewed, Markers.renewed_of_toList none]
  · have suffixIsGap : suffix.IsGap := sound.gaps suffix <| by
      simp [elementGaps, findAll_of_comma only isComma]
    rw [writtenTrailingComma_of_comma only isComma, List.cons_append] at short ends ⊢
    rw [listElements, bind_element complete kinds part kind isGap (isSolid_of_closer (by decide) _) ends short,
      bind_of_ok (accept_cons _ _), if_pos rfl, bind_get,
      bind_of_ok (gap_render suffixIsGap solid fun isFinal => by cases isFinal),
      bind_of_ok (accept_cons _ _), if_pos rfl, run_pure]
    simp [RightPadded.renewed, renewed_of_comma only isComma]

/-- An element with others behind it is read back when they are. -/
theorem listElements_cons
    {close : Char}
    (closes : close = ')' ∨ close = ']')
    {fuel : Nat}
    {first second : RightPadded Tree}
    {more : List (RightPadded Tree)}
    (sound : SoundElements test (first :: second :: more))
    (short : (writtenElements (first :: second :: more) ++ close :: rest).length < bound)
    (readOthers : listElements [close] element fuel (writtenElements (second :: more) ++ close :: rest) =
      .ok ((second :: more).map (·.renewed Tree.renewed), rest)) :
    listElements [close] element (fuel + 1) (writtenElements (first :: second :: more) ++ close :: rest) =
      .ok ((first :: second :: more).map (·.renewed Tree.renewed), rest) := by
  obtain ⟨first, after, markers⟩ := first
  have part : first.IsPart := sound.parts first (by simp [RightPadded.elements])
  have isGap : after.IsGap := sound.gaps after (by simp [elementGaps])
  obtain ⟨kind, none, fitsOthers⟩ : test first.form = true ∧ markers.toList = [] ∧
    FitElements test (second :: more) := sound.fits
  have secondPart : second.element.IsPart := sound.parts second.element (by simp [RightPadded.elements])
  have secondKind : test second.element.form = true := by
    cases more with
    | nil => exact fitsOthers.1
    | cons third others => exact fitsOthers.1
  obtain ⟨behindFirst, starts⟩ := exists_writtenElements second more
  obtain ⟨behind, startsSecond⟩ : ∃ behind,
      writtenElements (second :: more) ++ close :: rest = second.element.written ++ behind :=
    ⟨behindFirst ++ close :: rest, by rw [starts, List.append_assoc]⟩
  have noClose : accept [close] (second.element.form.written ++ behind) =
      .ok (false, second.element.form.written ++ behind) := by
    refine accept_of_none ?_
    have starts := startsIn_opensValue secondPart.canonical (kinds secondKind)
    exact dropStart?_of_opensValue (Text.startsIn_append starts behind)
      (by rcases closes with rfl | rfl <;> decide) []
  have whole : writtenElements (⟨first, after, markers⟩ :: second :: more) ++ close :: rest =
      first.written ++ (after.render .slash ++ ',' :: (writtenElements (second :: more) ++ close :: rest)) := by
    simp [writtenElements_cons]
  rw [whole] at short ⊢
  have readSuffix := gap_element kinds secondPart secondKind behind
  rw [startsSecond] at short readOthers ⊢
  rw [listElements,
    bind_element complete kinds part kind isGap (isSolid_of_closer (by decide) _) (.of_gap isGap (by decide) _) short,
    bind_of_ok (accept_cons _ _), if_pos rfl, bind_get, bind_of_ok readSuffix, bind_of_ok noClose,
    if_neg Bool.false_ne_true, bind_set, bind_of_ok readOthers, run_pure]
  simp [RightPadded.renewed, Markers.renewed_of_toList none]

/-- Elements with commas between them are read back up to the closing delimiter. -/
theorem listElements_complete
    {close : Char}
    (closes : close = ')' ∨ close = ']')
    {fuel : Nat}
    {padded : List (RightPadded Tree)}
    (sound : SoundElements test padded)
    (short : (writtenElements padded ++ close :: rest).length < bound)
    (enough : (writtenElements padded ++ close :: rest).length < fuel) :
    listElements [close] element fuel (writtenElements padded ++ close :: rest) =
      .ok (padded.map (·.renewed Tree.renewed), rest) := by
  induction padded generalizing fuel with
  | nil => exact sound.fits.elim
  | cons first others ih =>
      obtain ⟨fuel, rfl⟩ : ∃ less, fuel = less + 1 := ⟨fuel - 1, by omega⟩
      cases others with
      | nil => exact listElements_last complete kinds closes sound short
      | cons second more =>
          have shorter : (writtenElements (second :: more) ++ close :: rest).length <
              (writtenElements (first :: second :: more) ++ close :: rest).length := by
            simp [writtenElements_cons]
            omega
          refine listElements_cons complete kinds closes sound short (ih ?_ (by omega) (by omega))
          refine ⟨sound.fits.2.2, fun space member => sound.gaps space ?_,
            fun child member => sound.parts child (List.mem_cons_of_mem _ member)⟩
          rw [elementGaps, List.flatMap_cons]
          exact List.mem_append_right _ member

/-- A delimited list is read back. -/
theorem container_complete
    {opening close : Char}
    (closes : close = ')' ∨ close = ']')
    {list : Container Tree}
    (sound : SoundContainer test list)
    (before : Space)
    (short : (writtenElements list.padded ++ close :: rest).length < bound) :
    container element before ([opening], [close])
        (opening :: (writtenElements list.padded ++ close :: rest)) =
      .ok (⟨before, list.padded.map (·.renewed Tree.renewed), .empty⟩, rest) := by
  have isCloser : close ∈ closers := by
    rcases closes with rfl | rfl <;> decide
  have opened := expect_cons opening (writtenElements list.padded ++ close :: rest)
  obtain ⟨⟨-, isNone | fits⟩, closed, gaps, parts⟩ := sound
  · have noSpace := closed isNone
    obtain ⟨_, padded, _⟩ := list
    match padded, isNone with
    | [⟨only, after, markers⟩], ⟨isEmpty, noMarkers⟩ =>
        have part : only.IsPart := parts only (by simp [Container.elements, RightPadded.elements])
        have noAfter : after.isEmpty = true := noSpace ⟨only, after, markers⟩ (by simp)
        have form : only.form = .empty := by
          revert isEmpty
          cases only.form <;> simp [Form.isEmpty]
        have written : writtenElements [⟨only, after, markers⟩] = only.leading.render .slash := by
          rw [writtenElements, Tree.written_eq, form, (Space.render_eq_nil_iff _).2 noAfter,
            writtenTrailingComma_of_toList noMarkers]
          simp
        have readInner := gap_render part.leading (isSolid_of_closer isCloser rest)
          fun isFinal => by cases isFinal
        rw [written] at opened ⊢
        rw [container, bind_of_ok opened, bind_get, bind_of_ok readInner,
          bind_of_ok (accept_cons _ _), if_pos rfl, run_pure]
        simp [RightPadded.build, RightPadded.renewed, part.renewed, Tree.placed, form, Form.renewed,
          Space.renewed_of_isEmpty noAfter, Markers.renewed_of_toList noMarkers]
  · obtain ⟨_, padded, _⟩ := list
    cases padded with
    | nil => exact fits.elim
    | cons first others =>
        obtain ⟨behindFirst, starts⟩ := exists_writtenElements first others
        have part : first.element.IsPart :=
          parts first.element (by simp [Container.elements, RightPadded.elements])
        have kind : test first.element.form = true := by
          cases others with
          | nil => exact fits.1
          | cons second more => exact fits.1
        have whole : writtenElements (first :: others) ++ close :: rest =
            first.element.written ++ (behindFirst ++ close :: rest) := by
          rw [starts, List.append_assoc]
        have noClose : accept [close] (first.element.form.written ++ (behindFirst ++ close :: rest)) =
            .ok (false, first.element.form.written ++ (behindFirst ++ close :: rest)) := by
          refine accept_of_none ?_
          have opens := startsIn_opensValue part.canonical (kinds kind)
          exact dropStart?_of_opensValue (Text.startsIn_append opens _)
            (by rcases closes with rfl | rfl <;> decide) []
        have readElements := listElements_complete complete kinds closes ⟨fits, gaps, parts⟩ short
          (Nat.lt_succ_self _)
        rw [container, bind_of_ok opened, bind_get, whole, bind_of_ok (gap_element kinds part kind _),
          bind_of_ok noClose, if_neg Bool.false_ne_true, bind_set, ← whole,
          bind_of_ok readElements, run_pure]

end Elements

end Java
end Lossless
