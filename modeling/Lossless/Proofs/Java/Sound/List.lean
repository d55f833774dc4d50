import Lossless.Proofs.Java.Cases
import Lossless.Proofs.Java.Written

/-!
# What is read as a delimited list

`ReadsAs` says that a parser has read the text of a canonical tree: the tree is written as the text that was
read, and its parts are of the kinds and with the spaces that the grammar asks for. A delimited list of trees
that are read so is read so itself.
-/

namespace Lossless
namespace Java

open Lossless.Parser
open Java.Parser

variable {text rest : Text} {leading : Space} {tree : Tree}

/-- A canonical tree with the given space before it was read off the start of a text. -/
structure ReadsAs
    (leading : Space)
    (text : Text)
    (tree : Tree)
    (rest : Text) : Prop where
  leading : tree.leading = leading
  unmarked : tree.markers.toList = []
  written : text = tree.form.written ++ rest
  canonical : tree.IsCanonical

namespace ReadsAs

theorem isPart
    (reads : ReadsAs leading text tree rest)
    (isGap : leading.IsGap) :
    tree.IsPart :=
  ⟨by rw [reads.leading]; exact isGap, reads.unmarked, reads.canonical⟩

theorem written_append
    (reads : ReadsAs leading text tree rest) :
    leading.render .slash ++ text = tree.written ++ rest := by
  rw [Tree.written_eq, reads.leading, List.append_assoc, ← reads.written]

theorem paired
    (reads : ReadsAs leading text tree rest)
    (paired : text.hasPairedReturns = true) :
    rest.hasPairedReturns = true := by
  rw [reads.written] at paired
  exact Text.hasPairedReturns_of_append paired

/-- A new node whose form is written as what was read. -/
theorem spaced
    {form : Form Tree}
    (written : text = form.written ++ rest)
    (canonical : (Tree.spaced leading form).IsCanonical) :
    ReadsAs leading text (.spaced leading form) rest :=
  ⟨rfl, rfl, written, canonical⟩

end ReadsAs

/-- A parser of trees of a kind reads canonical ones. -/
def IsSound
    (test : Form Tree -> Bool)
    (element : Space -> Parser Tree) : Prop :=
  forall {leading text tree rest}, text.hasPairedReturns = true ->
    element leading text = .ok (tree, rest) ->
      ReadsAs leading text tree rest ∧ test tree.form = true

/-! ## Hoisted spaces -/

/-- The part that a tree becomes when it gives its leading space away. -/
theorem Tree.isPart_withLeading_empty
    (unmarked : tree.markers.toList = [])
    (canonical : tree.IsCanonical) :
    (tree.withLeading .empty).IsPart := by
  refine ⟨?_, ?_, (isCanonical_withLeading tree .empty).2 canonical⟩
  · rw [withLeading, leading_revise]
    exact Space.isGapTo_empty false
  · rw [withLeading, markers_revise]
    exact unmarked

@[simp] theorem Tree.written_withLeading_empty (tree : Tree) :
    (tree.withLeading .empty).written = tree.form.written := by
  rw [written_eq]
  simp

/-! ## Delimited lists -/

/-- Elements of a list with their padding, as they are read. -/
structure SoundElements
    (test : Form Tree -> Bool)
    (padded : List (RightPadded Tree)) : Prop where
  fits : FitElements test padded
  gaps : forall space, space ∈ elementGaps padded -> space.IsGap
  parts : forall child, child ∈ RightPadded.elements padded -> child.IsPart

@[simp] theorem toList_trailingCommaMarkers (suffix : Space) :
    (trailingCommaMarkers suffix).toList = [.build (.trailingComma suffix)] := by
  simp [trailingCommaMarkers]

@[simp] theorem findAll_trailingCommaMarkers (suffix : Space) :
    (trailingCommaMarkers suffix).findAll Fact.trailingComma? = [suffix] := by
  rw [Markers.findAll, toList_trailingCommaMarkers]
  rfl

@[simp] theorem writtenTrailingComma_trailingCommaMarkers (suffix : Space) :
    writtenTrailingComma (trailingCommaMarkers suffix) = ',' :: suffix.render .slash := by
  rw [writtenTrailingComma, Markers.findFirst?, toList_trailingCommaMarkers]
  rfl

@[simp] theorem findAll_empty (select : Fact Space -> Option α) :
    (Markers.empty : Markers Space).findAll select = [] := rfl

@[simp] theorem writtenTrailingComma_empty : writtenTrailingComma .empty = [] := rfl

namespace SoundElements

variable {test : Form Tree -> Bool} {first : Tree} {after : Space}

/-- The last element, with or without a comma after it. -/
theorem last
    {markers : Markers Space}
    (kind : test first.form = true)
    (part : first.IsPart)
    (isGap : after.IsGap)
    (trailing : IsTrailing markers)
    (suffixes : forall suffix, suffix ∈ markers.findAll Fact.trailingComma? -> suffix.IsGap) :
    SoundElements test [⟨first, after, markers⟩] where
  fits := ⟨kind, trailing⟩
  gaps := by simpa [elementGaps] using ⟨isGap, suffixes⟩
  parts := by simpa [RightPadded.elements] using part

/-- An element with a comma and more elements after it. -/
theorem cons
    {others : List (RightPadded Tree)}
    (kind : test first.form = true)
    (part : first.IsPart)
    (isGap : after.IsGap)
    (sound : SoundElements test others) :
    SoundElements test (⟨first, after, .empty⟩ :: others) where
  fits := by
    cases others with
    | nil => exact sound.fits.elim
    | cons second more => exact ⟨kind, rfl, sound.fits⟩
  gaps := by
    intro space member
    simp only [elementGaps, List.flatMap_cons, findAll_empty, List.cons_append, List.nil_append,
      List.mem_cons] at member
    rcases member with rfl | later
    · exact isGap
    · exact sound.gaps space later
  parts := by
    intro child member
    rcases List.mem_cons.1 member with rfl | later
    · exact part
    · exact sound.parts child later

end SoundElements

theorem writtenElements_cons
    {others : List (RightPadded Tree)}
    (more : others ≠ [])
    (first : RightPadded Tree) :
    writtenElements (first :: others) =
      first.element.written ++ first.after.render .slash ++ ',' :: writtenElements others := by
  cases others with
  | nil => exact absurd rfl more
  | cons second rest => rfl

/-- What a closing delimiter, or a comma and more elements, ends is an element with its padding. -/
theorem element_sound
    {test : Form Tree -> Bool}
    {element : Space -> Parser Tree}
    (sound : IsSound test element)
    {body afterFirst left : Text}
    {first : Tree}
    {after : Space}
    (paired : text.hasPairedReturns = true)
    (readLeading : gap text = .ok (leading, body))
    (readFirst : element leading body = .ok (first, afterFirst))
    (readAfter : gap afterFirst = .ok (after, left))
    (more : left ≠ []) :
    text = first.written ++ (after.render .slash ++ left) ∧ left.hasPairedReturns = true ∧
      test first.form = true ∧ first.IsPart ∧ after.IsGap := by
  obtain ⟨rfl, -, -⟩ := gap_sound paired readLeading
  have bodyPaired := Text.hasPairedReturns_of_append paired
  obtain ⟨reads, kind⟩ := sound bodyPaired readFirst
  have afterPaired := reads.paired bodyPaired
  obtain ⟨rfl, -, -⟩ := gap_sound afterPaired readAfter
  have bodyNonempty : body ≠ [] := by
    rw [reads.written]
    simp [more]
  have leadingIsGap := isGap_of_gap paired readLeading bodyNonempty
  refine ⟨reads.written_append, Text.hasPairedReturns_of_append afterPaired, kind,
    reads.isPart leadingIsGap, isGap_of_gap afterPaired readAfter more⟩

theorem listElements_sound
    {test : Form Tree -> Bool}
    {element : Space -> Parser Tree}
    (sound : IsSound test element)
    {close : Text}
    (closes : close ≠ [])
    {bound : Nat}
    {padded : List (RightPadded Tree)}
    (paired : text.hasPairedReturns = true)
    (read : listElements close element bound text = .ok (padded, rest)) :
    text = writtenElements padded ++ (close ++ rest) ∧ SoundElements test padded := by
  induction bound generalizing text padded with
  | zero => simp [listElements] at read
  | succ bound ih =>
      unfold listElements at read
      simp only [bind_eq_ok] at read
      obtain ⟨leading, body, readLeading, first, afterFirst, readFirst, after, left, readAfter,
        isComma, middle, accepted, read⟩ := read
      rcases accept_eq_ok.1 accepted with ⟨rfl, rfl⟩ | ⟨rfl, noComma, rfl⟩
      · obtain ⟨whole, leftPaired, kind, part, afterIsGap⟩ :=
          element_sound sound paired readLeading readFirst readAfter (by simp)
        simp only [if_true, bind_eq_ok, get_eq_ok] at read
        obtain ⟨saved, _, ⟨rfl, rfl⟩, suffix, behind, readSuffix, isClosed, _, closed, read⟩ := read
        have behindComma : middle.hasPairedReturns = true :=
          Text.hasPairedReturns_of_append leftPaired
        rcases accept_eq_ok.1 closed with ⟨rfl, rfl⟩ | ⟨rfl, -, rfl⟩
        · rw [if_pos rfl, pure_eq_ok] at read
          obtain ⟨rfl, rfl⟩ := read
          obtain ⟨rfl, -, -⟩ := gap_sound behindComma readSuffix
          have suffixIsGap := isGap_of_gap behindComma readSuffix (by simp [closes])
          refine ⟨by simp [whole, writtenElements], .last kind part afterIsGap ?_ ?_⟩
          · exact .inr ⟨_, suffix, toList_trailingCommaMarkers suffix, rfl⟩
          · simpa using suffixIsGap
        · simp only [Bool.false_eq_true, if_false, bind_eq_ok, set_eq_ok, pure_eq_ok] at read
          obtain ⟨_, _, rfl, others, _, readOthers, rfl, rfl⟩ := read
          obtain ⟨rfl, othersSound⟩ := ih behindComma readOthers
          have nonempty : others ≠ [] := by
            rintro rfl
            exact othersSound.fits
          refine ⟨?_, .cons kind part afterIsGap othersSound⟩
          rw [whole, writtenElements_cons nonempty]
          simp
      · simp only [Bool.false_eq_true, if_false, bind_eq_ok] at read
        obtain ⟨isClosed, _, closed, read⟩ := read
        rcases accept_eq_ok.1 closed with ⟨rfl, rfl⟩ | ⟨rfl, -, rfl⟩
        · obtain ⟨whole, leftPaired, kind, part, afterIsGap⟩ :=
            element_sound sound paired readLeading readFirst readAfter (by simp [closes])
          rw [if_pos rfl, pure_eq_ok] at read
          obtain ⟨rfl, rfl⟩ := read
          exact ⟨by simp [whole, writtenElements], .last kind part afterIsGap (.inl rfl) (by simp)⟩
        · simp at read

/-- A delimited list, as it is read. -/
structure SoundContainer
    (test : Form Tree -> Bool)
    (list : Container Tree) : Prop where
  fits : FitsContainer test list
  closes : ClosesList list
  gaps : forall space, space ∈ elementGaps list.padded -> space.IsGap
  parts : forall child, child ∈ list.elements -> child.IsPart

/-- An empty node is canonical. -/
theorem isCanonical_of_isEmpty
    (isEmpty : tree.form = .empty) :
    tree.IsCanonical := by
  apply Tree.isCanonical_of_parts <;> rw [isEmpty] <;> simp [Form.Fits, Form.Separates, Form.gaps,
    Form.eof?, Form.children]

namespace SoundContainer

variable {test : Form Tree -> Bool}

/-- A list without elements holds an empty node with the space between the delimiters. -/
theorem ofNone
    {inner : Space}
    (before : Space)
    (isGap : inner.IsGap) :
    SoundContainer test ⟨before, [.build (.spaced inner .empty)], .empty⟩ where
  fits := ⟨rfl, .inl ⟨rfl, rfl⟩⟩
  closes := by
    intro _ padded member
    rw [List.mem_singleton.1 member]
    rfl
  gaps := by
    intro space member
    obtain rfl : space = .empty := by simpa [elementGaps, RightPadded.build] using member
    exact Space.isGapTo_empty false
  parts := by
    intro child member
    obtain rfl : child = .spaced inner .empty := by
      simpa [Container.elements, RightPadded.elements, RightPadded.build] using member
    exact ⟨isGap, rfl, isCanonical_of_isEmpty rfl⟩

/-- A list with elements holds them. -/
theorem ofElements
    {padded : List (RightPadded Tree)}
    (noEmpty : test .empty = false)
    (before : Space)
    (sound : SoundElements test padded) :
    SoundContainer test ⟨before, padded, .empty⟩ where
  fits := ⟨rfl, .inr sound.fits⟩
  closes := by
    intro isNone
    have fits := sound.fits
    match padded, isNone with
    | [only], ⟨isEmpty, _⟩ =>
        have equal : only.element.form = .empty := by
          revert isEmpty
          cases only.element.form <;> simp [Form.isEmpty]
        rw [FitElements, equal, noEmpty] at fits
        exact absurd fits.1 Bool.false_ne_true
  gaps := sound.gaps
  parts := sound.parts

end SoundContainer

theorem container_sound
    {test : Form Tree -> Bool}
    {element : Space -> Parser Tree}
    (sound : IsSound test element)
    (noEmpty : test .empty = false)
    {before : Space}
    {delimiters : Text × Text}
    (closes : delimiters.2 ≠ [])
    {list : Container Tree}
    (paired : text.hasPairedReturns = true)
    (read : container element before delimiters text = .ok (list, rest)) :
    text = delimiters.1 ++ (writtenElements list.padded ++ (delimiters.2 ++ rest)) ∧
      list.before = before ∧ SoundContainer test list := by
  unfold container at read
  simp only [bind_eq_ok, get_eq_ok] at read
  obtain ⟨_, body, opened, _, _, ⟨rfl, rfl⟩, inner, left, readInner, isClosed, _, closed, read⟩ := read
  obtain rfl := expect_eq_ok.1 opened
  have bodyPaired := Text.hasPairedReturns_of_append paired
  rcases accept_eq_ok.1 closed with ⟨rfl, rfl⟩ | ⟨rfl, -, rfl⟩
  · rw [if_pos rfl, pure_eq_ok] at read
    obtain ⟨rfl, rfl⟩ := read
    obtain ⟨rfl, -, -⟩ := gap_sound bodyPaired readInner
    have isGap := isGap_of_gap bodyPaired readInner (by simp [closes])
    refine ⟨?_, rfl, .ofNone before isGap⟩
    simp [writtenElements, RightPadded.build, Tree.written_eq]
  · simp only [Bool.false_eq_true, if_false, bind_eq_ok, set_eq_ok, pure_eq_ok] at read
    obtain ⟨_, _, rfl, padded, _, readElements, rfl, rfl⟩ := read
    obtain ⟨rfl, elementsSound⟩ := listElements_sound sound closes bodyPaired readElements
    exact ⟨rfl, rfl, .ofElements noEmpty before elementsSound⟩

end Java
end Lossless
