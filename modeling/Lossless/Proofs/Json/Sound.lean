import Lossless.Proofs.Json.Written
import Lossless.Proofs.Parser.Outcome

/-!
# What is read as a data tree

`ReadsAs` says that a parser has read the text of a canonical tree: the tree is written as the text that was read.
Every value is read so, by induction on how deep its brackets may be nested.

A document that a source is parsed as prints as the source.
-/

namespace Lossless
namespace Json

open Lossless.Parser
open Json.Parser

variable {text rest : Text} {leading : Space} {tree : Tree}

/-- A canonical tree with the given space before it was read off the start of a text. -/
structure ReadsAs
    (leading : Space)
    (text : Text)
    (tree : Tree)
    (rest : Text) : Prop where
  leading : tree.leading = leading
  unmarked : tree.markers.toList = []
  written : text = tree.form.written ++ rest
  canonical : tree.IsCanonical

namespace ReadsAs

theorem isPart
    (reads : ReadsAs leading text tree rest)
    (isGap : leading.IsGap) :
    tree.IsPart :=
  ⟨by rw [reads.leading]; exact isGap, reads.unmarked, reads.canonical⟩

theorem written_append (reads : ReadsAs leading text tree rest) :
    leading.render .slash ++ text = tree.printTrimmed ++ rest := by
  rw [Tree.printTrimmed_eq, reads.leading, List.append_assoc, <- reads.written]

theorem paired
    (reads : ReadsAs leading text tree rest)
    (paired : text.hasPairedReturns = true) :
    rest.hasPairedReturns = true := by
  rw [reads.written] at paired
  exact Text.hasPairedReturns_of_append paired

/-- A value is written as some text. -/
theorem ne_nil
    (reads : ReadsAs leading text tree rest)
    (isValue : tree.form.isValue = true) :
    text ≠ [] := by
  have starts := startsIn_opensElement_of_isValue reads.canonical.root.fits isValue
  rintro rfl
  obtain ⟨none, -⟩ := List.append_eq_nil_iff.1 reads.written.symm
  rw [none] at starts
  cases starts

end ReadsAs

/-- A parser of trees of a kind reads canonical ones. -/
def IsSound
    (test : Form Tree -> Bool)
    (element : Space -> Parser Tree) : Prop :=
  forall {leading text tree rest}, text.hasPairedReturns = true ->
    element leading text = .ok (tree, rest) ->
      ReadsAs leading text tree rest ∧ test tree.form = true

/-! ## Tokens -/

/-- A form without children whose text is read. -/
structure ReadsToken
    (text : Text)
    (form : Form Tree)
    (rest : Text) : Prop where
  written : text = form.written ++ rest
  fits : form.Fits
  isLeaf : form.children = [] ∧ form.gaps = [] ∧ form.eof? = none

/-- A token as a node of its own is canonical. -/
theorem ReadsToken.isCanonical
    {form : Form Tree}
    (reads : ReadsToken text form rest)
    (form_eq : tree.form = form) :
    tree.IsCanonical := by
  obtain ⟨-, fits, noChildren, noGaps, noEof⟩ := reads
  apply Tree.isCanonical_of_parts <;> rw [form_eq]
  · exact fits
  · simp [noGaps]
  · simp [noEof]
  · simp [noChildren]

theorem string_sound
    {form : Form Tree}
    (opens : text.head? = some '"')
    (read : string text = .ok (form, rest)) :
    ReadsToken text form rest ∧ form.isValue = true ∧ form.isKey = true := by
  obtain ⟨body, rfl⟩ : exists body, text = '"' :: body := by
    cases text with
    | nil => cases opens
    | cons first body =>
        obtain rfl := Option.some.inj opens
        exact ⟨body, rfl⟩
  change (scanString .plain body >>= fun scanned => _) = _ at read
  rcases scanned : scanString .plain body with fault | ⟨value, left⟩
  · rw [scanned] at read
    cases read
  · rw [scanned] at read
    obtain ⟨quoted, rfl, scans⟩ := scans_of_scanString scanned
    cases read
    have source : List.take (('"' :: (quoted ++ rest)).length - rest.length) ('"' :: (quoted ++ rest)) =
        '"' :: quoted := by
      rw [<- List.cons_append]
      apply List.take_left'
      rw [List.length_append, Nat.add_sub_cancel]
    refine ⟨⟨?_, ?_, rfl, rfl, rfl⟩, rfl, rfl⟩
    · rw [Form.written_literal, source, List.cons_append]
    · rw [source]
      exact ⟨quoted, rfl, scans⟩

theorem number_sound
    {form : Form Tree}
    (starts : text.startsIn isNumberStart = true)
    (read : number text = .ok (form, rest)) :
    ReadsToken text form rest ∧ form.isValue = true := by
  unfold number at read
  dsimp only at read
  split at read
  · next value isNumber =>
      cases read
      refine ⟨⟨?_, ⟨?_, Text.all_takeWhile _ _, isNumber⟩, rfl, rfl, rfl⟩, rfl⟩
      · rw [Form.written_literal, List.takeWhile_append_dropWhile]
      · cases text with
        | nil => cases starts
        | cons first more =>
            have isPart : isNumberPart first = true := by
              simp only [Text.startsIn, isNumberStart, Bool.or_eq_true, decide_eq_true_eq] at starts
              rcases starts with rfl | isDigit
              · rfl
              · simp [isNumberPart, isDigit]
            rw [List.takeWhile_cons_of_pos isPart]
            exact starts
  · cases read

theorem word_sound
    {form : Form Tree}
    {words : List Scalar}
    (areWords : forall value, value ∈ words -> value = .null ∨ exists truth, value = .truth truth)
    (read : word words text = .ok (form, rest)) :
    ReadsToken text form rest ∧ form.isValue = true := by
  induction words with
  | nil => simp [word] at read
  | cons value others ih =>
      obtain ⟨isWord, areOthers⟩ := List.forall_mem_cons.1 areWords
      rw [word, bind_eq_ok] at read
      obtain ⟨found, middle, accepted, read⟩ := read
      rcases accept_eq_ok.1 accepted with ⟨rfl, rfl⟩ | ⟨rfl, -, rfl⟩
      · rw [if_pos rfl, pure_eq_ok] at read
        obtain ⟨rfl, rfl⟩ := read
        refine ⟨⟨by rw [Form.written_literal], ?_, rfl, rfl, rfl⟩, rfl⟩
        rcases isWord with rfl | ⟨truth, rfl⟩ <;> rfl
      · exact ih areOthers read

theorem key_sound
    {form : Form Tree}
    (read : key text = .ok (form, rest)) :
    ReadsToken text form rest ∧ form.isKey = true := by
  unfold key at read
  rw [bind_get] at read
  split at read
  · next first more =>
      split at read
      · next isQuote =>
          obtain ⟨reads, -, isKey⟩ := string_sound (by rw [isQuote]; rfl) read
          exact ⟨reads, isKey⟩
      · split at read
        · next starts =>
            rw [bind_eq_ok] at read
            obtain ⟨name, middle, taken, read⟩ := read
            obtain ⟨rfl, rfl⟩ := pure_eq_ok.1 read
            obtain ⟨whole, inside, -⟩ := Text.takeWhile_eq_iff.1 (takeWhile_eq_ok.1 taken)
            refine ⟨⟨by rw [Form.written_identifier, whole], ⟨?_, inside⟩, rfl, rfl, rfl⟩, rfl⟩
            have isPart := Text.isIdentifierPart_of_isIdentifierStart starts
            rw [<- (takeWhile_eq_ok.1 taken).1, List.takeWhile_cons_of_pos isPart]
            exact starts
        · simp at read
  · simp at read

/-! ## Lists -/

/-- The elements of a list, as they are read. -/
structure SoundElements
    (test : Form Tree -> Bool)
    (list : List (RightPadded Tree)) : Prop where
  fits : FitElements test list
  gaps : forall space, space ∈ list.map (fun padded => padded.after) -> space.IsGap
  parts : forall child, child ∈ RightPadded.elements list -> child.IsPart

namespace SoundElements

variable {test : Form Tree -> Bool} {first : RightPadded Tree} {others : List (RightPadded Tree)}

theorem singleton
    (fits : FitsElement test first)
    (isGap : first.after.IsGap)
    (part : first.element.IsPart) :
    SoundElements test [first] where
  fits := .singleton fits
  gaps := List.forall_mem_singleton.2 isGap
  parts := List.forall_mem_singleton.2 part

theorem cons
    (unmarked : first.markers.toList = [])
    (kind : test first.element.form = true)
    (isGap : first.after.IsGap)
    (part : first.element.IsPart)
    (sound : SoundElements test others) :
    SoundElements test (first :: others) where
  fits := .cons unmarked kind sound.fits
  gaps := List.forall_mem_cons.2 ⟨isGap, sound.gaps⟩
  parts := List.forall_mem_cons.2 ⟨part, sound.parts⟩

end SoundElements

/-- An empty node is canonical. -/
theorem isCanonical_of_empty
    (isEmpty : tree.form = .empty) :
    tree.IsCanonical := by
  apply Tree.isCanonical_of_parts <;> rw [isEmpty] <;> simp [Form.Fits, Form.gaps, Form.eof?, Form.children]

/-- What a comma or a closing delimiter ends is an element with its padding. -/
theorem element_sound
    {test : Form Tree -> Bool}
    {element : Space -> Parser Tree}
    (sound : IsSound test element)
    {body afterFirst left : Text}
    {first : Tree}
    {after : Space}
    (paired : text.hasPairedReturns = true)
    (readLeading : gap text = .ok (leading, body))
    (readFirst : element leading body = .ok (first, afterFirst))
    (readAfter : gap afterFirst = .ok (after, left))
    (more : left ≠ []) :
    text = writtenPadded ⟨first, after, .empty⟩ ++ left ∧ left.hasPairedReturns = true ∧
      test first.form = true ∧ first.IsPart ∧ after.IsGap := by
  obtain ⟨rfl, -, -⟩ := gap_sound paired readLeading
  have bodyPaired := Text.hasPairedReturns_of_append paired
  obtain ⟨reads, kind⟩ := sound bodyPaired readFirst
  have afterPaired := reads.paired bodyPaired
  obtain ⟨rfl, -, -⟩ := gap_sound afterPaired readAfter
  have bodyNonempty : body ≠ [] := by
    rw [reads.written]
    simp [more]
  have leadingIsGap := isGap_of_gap paired readLeading bodyNonempty
  refine ⟨?_, Text.hasPairedReturns_of_append afterPaired, kind, reads.isPart leadingIsGap,
    isGap_of_gap afterPaired readAfter more⟩
  rw [reads.written_append, writtenPadded, List.append_assoc]

theorem elements_sound
    {test : Form Tree -> Bool}
    {element : Space -> Parser Tree}
    (sound : IsSound test element)
    {close : Text}
    (closes : close ≠ [])
    {bound : Nat}
    {list : List (RightPadded Tree)}
    (paired : text.hasPairedReturns = true)
    (read : elements close element bound text = .ok (list, rest)) :
    text = writtenElements list ++ (close ++ rest) ∧ SoundElements test list := by
  induction bound generalizing text list with
  | zero => simp [elements] at read
  | succ bound ih =>
      unfold elements at read
      simp only [bind_eq_ok] at read
      obtain ⟨leading, body, readLeading, isClosed, middle, closed, read⟩ := read
      rcases accept_eq_ok.1 closed with ⟨rfl, rfl⟩ | ⟨rfl, -, rfl⟩
      · rw [if_pos rfl, pure_eq_ok] at read
        obtain ⟨rfl, rfl⟩ := read
        have isGap := isGap_of_gap paired readLeading (by simp [closes])
        obtain ⟨rfl, -, -⟩ := gap_sound paired readLeading
        refine ⟨?_, .singleton ⟨rfl, .inr ⟨rfl, rfl⟩⟩ (Space.isGapTo_empty false) ⟨isGap, rfl, isCanonical_of_empty rfl⟩⟩
        simp [writtenElements, writtenPadded, RightPadded.build, Tree.printTrimmed_eq]
      · simp only [Bool.false_eq_true, if_false, bind_eq_ok] at read
        obtain ⟨first, afterFirst, readFirst, after, left, readAfter, isLast, middle, ended, read⟩ := read
        rcases accept_eq_ok.1 ended with ⟨rfl, rfl⟩ | ⟨rfl, -, rfl⟩
        · obtain ⟨whole, -, kind, part, afterIsGap⟩ :=
            element_sound sound paired readLeading readFirst readAfter (by simp [closes])
          rw [if_pos rfl, pure_eq_ok] at read
          obtain ⟨rfl, rfl⟩ := read
          exact ⟨whole, .singleton ⟨rfl, .inl kind⟩ afterIsGap part⟩
        · simp only [Bool.false_eq_true, if_false, bind_eq_ok] at read
          obtain ⟨isComma, middle, accepted, read⟩ := read
          rcases accept_eq_ok.1 accepted with ⟨rfl, rfl⟩ | ⟨rfl, -, rfl⟩
          · obtain ⟨whole, leftPaired, kind, part, afterIsGap⟩ :=
              element_sound sound paired readLeading readFirst readAfter (by simp)
            simp only [if_true, bind_eq_ok, pure_eq_ok] at read
            obtain ⟨others, _, readOthers, rfl, rfl⟩ := read
            obtain ⟨rfl, othersSound⟩ := ih (Text.hasPairedReturns_of_append leftPaired) readOthers
            refine ⟨?_, .cons rfl kind afterIsGap part othersSound⟩
            rw [whole, writtenElements_cons othersSound.fits.nonempty]
            simp
          · simp at read

theorem delimited_sound
    {test : Form Tree -> Bool}
    {element : Space -> Parser Tree}
    (sound : IsSound test element)
    {opening close : Text}
    (closes : close ≠ [])
    {list : List (RightPadded Tree)}
    (paired : text.hasPairedReturns = true)
    (read : delimited opening close element text = .ok (list, rest)) :
    text = opening ++ (writtenElements list ++ (close ++ rest)) ∧ SoundElements test list := by
  unfold delimited at read
  rw [bind_eq_ok] at read
  obtain ⟨_, body, opened, read⟩ := read
  rw [bind_get] at read
  obtain rfl := expect_eq_ok.1 opened
  obtain ⟨rfl, elementsSound⟩ := elements_sound sound closes (Text.hasPairedReturns_of_append paired) read
  exact ⟨rfl, elementsSound⟩

/-! ## Values -/

theorem member_sound
    {value : Space -> Parser Tree}
    (sound : IsSound Form.isValue value) :
    IsSound Form.isMember (member value) := by
  intro leading text tree rest paired read
  unfold member at read
  simp only [bind_eq_ok, pure_eq_ok] at read
  obtain ⟨key, afterKey, readKey, after, left, readAfter, _, body, colon, before, inner, readBefore, value, _,
    readValue, rfl, rfl⟩ := read
  obtain ⟨reads, isKey⟩ := key_sound readKey
  have keyPart : (Tree.build key).IsPart := ⟨Space.isGapTo_empty false, rfl, reads.isCanonical rfl⟩
  obtain rfl := reads.written
  have afterPaired := Text.hasPairedReturns_of_append paired
  obtain rfl := expect_eq_ok.1 colon
  have afterIsGap := isGap_of_gap afterPaired readAfter (by simp)
  obtain ⟨rfl, -, -⟩ := gap_sound afterPaired readAfter
  have bodyPaired := Text.hasPairedReturns_of_append (Text.hasPairedReturns_of_append afterPaired)
  obtain ⟨rfl, -, -⟩ := gap_sound bodyPaired readBefore
  have beforePaired := Text.hasPairedReturns_of_append bodyPaired
  obtain ⟨valueReads, isValue⟩ := sound beforePaired readValue
  have beforeIsGap := isGap_of_gap bodyPaired readBefore (valueReads.ne_nil isValue)
  have fits : (Form.member ⟨.build key, after, .empty⟩ value).Fits := ⟨rfl, isKey, rfl, isValue⟩
  refine ⟨⟨rfl, rfl, ?_, Tree.isCanonical_of_parts fits ?_ (by simp [Form.eof?]) ?_⟩, rfl⟩
  · simp [writtenPadded, Tree.printTrimmed_eq, valueReads.leading, valueReads.written]
  · exact List.forall_mem_singleton.2 afterIsGap
  · exact List.forall_mem_cons.2 ⟨keyPart, List.forall_mem_singleton.2 (valueReads.isPart beforeIsGap)⟩

/-- A list as the form of a value. -/
theorem list_sound
    {test : Form Tree -> Bool}
    {opening close : Text}
    {element : Space -> Parser Tree}
    (sound : IsSound test element)
    (closes : close ≠ [])
    {list : List (RightPadded Tree)}
    (paired : text.hasPairedReturns = true)
    (read : delimited opening close element text = .ok (list, rest))
    {form : Form Tree}
    (written : form.written = opening ++ (writtenElements list ++ close))
    (fits : FitElements test list -> form.Fits)
    (gaps : form.gaps = list.map fun padded => padded.after)
    (noEof : form.eof? = none)
    (children : form.children = RightPadded.elements list) :
    ReadsAs leading text (.buildAfter leading form) rest := by
  obtain ⟨whole, elementsSound⟩ := delimited_sound sound closes paired read
  refine ⟨rfl, rfl, ?_, Tree.isCanonical_of_parts (fits elementsSound.fits) ?_ ?_ ?_⟩
  · simp [whole, written]
  · rw [Tree.form_buildAfter, gaps]
    exact elementsSound.gaps
  · simp [noEof]
  · rw [Tree.form_buildAfter, children]
    exact elementsSound.parts

/-- A value is read as a canonical tree, however deep its brackets may be nested. -/
theorem valueWithin_sound (depth : Nat) : IsSound Form.isValue (valueWithin depth) := by
  induction depth with
  | zero =>
      intro leading text tree rest paired read
      simp [valueWithin] at read
  | succ depth ih =>
      intro leading text tree rest paired read
      unfold valueWithin at read
      rw [bind_get] at read
      have token {form : Form Tree} {left : Text} (reads : ReadsToken text form left ∧ form.isValue = true)
          (node : (pure (Tree.buildAfter leading form) : Parser Tree) left = .ok (tree, rest)) :
          ReadsAs leading text tree rest ∧ tree.form.isValue = true := by
        obtain ⟨rfl, rfl⟩ := pure_eq_ok.1 node
        exact ⟨⟨rfl, rfl, reads.1.written, reads.1.isCanonical rfl⟩, reads.2⟩
      split at read
      · simp only [bind_eq_ok, map_eq_ok, pure_eq_ok] at read
        obtain ⟨_, _, ⟨members, readMembers, rfl⟩, rfl, rfl⟩ := read
        refine ⟨list_sound (member_sound ih) (List.cons_ne_nil _ _) paired readMembers ?_ id rfl rfl rfl, rfl⟩
        rw [Form.written_object]
        rfl
      · simp only [bind_eq_ok, map_eq_ok, pure_eq_ok] at read
        obtain ⟨_, _, ⟨values, readValues, rfl⟩, rfl, rfl⟩ := read
        refine ⟨list_sound ih (List.cons_ne_nil _ _) paired readValues ?_ id rfl rfl rfl, rfl⟩
        rw [Form.written_array]
        rfl
      · obtain ⟨form, left, readString, node⟩ := bind_eq_ok.1 read
        obtain ⟨reads, isValue, -⟩ := string_sound rfl readString
        exact token ⟨reads, isValue⟩ node
      · split at read
        · next starts =>
            obtain ⟨form, left, readNumber, node⟩ := bind_eq_ok.1 read
            exact token (number_sound starts readNumber) node
        · obtain ⟨form, left, readWord, node⟩ := bind_eq_ok.1 read
          exact token (word_sound (by simp) readWord) node
      · obtain ⟨form, left, failed, -⟩ := bind_eq_ok.1 read
        simp at failed

/-- A document is read as a canonical tree that is written as the whole text. -/
theorem document_sound
    {path : Path}
    (paired : text.hasPairedReturns = true)
    (read : document path text = .ok (tree, rest)) :
    exists value eof, tree = .build (.document ⟨path, none, none⟩ value eof) ∧ tree.IsCanonical ∧
      tree.printTrimmed = text := by
  unfold document at read
  simp only [bind_eq_ok, get_eq_ok] at read
  obtain ⟨leading, body, readLeading, _, _, ⟨rfl, rfl⟩, value, afterValue, readValue, eof, left, readEof, _, _,
    ⟨rfl, rfl⟩, read⟩ := read
  split at read
  · obtain ⟨rfl, rfl⟩ := pure_eq_ok.1 read
    have bodyPaired : body.hasPairedReturns = true := by
      rw [(gap_sound paired readLeading).1] at paired
      exact Text.hasPairedReturns_of_append paired
    obtain ⟨reads, isValue⟩ := valueWithin_sound _ bodyPaired readValue
    have leadingIsGap := isGap_of_gap paired readLeading (reads.ne_nil isValue)
    obtain ⟨whole, eofIsGap, -⟩ := gap_sound (reads.paired bodyPaired) readEof
    refine ⟨value, eof, rfl, Tree.isCanonical_of_parts isValue (by simp [Form.gaps]) ?_ ?_, ?_⟩
    · rintro space ⟨⟩
      exact eofIsGap
    · exact List.forall_mem_singleton.2 (reads.isPart leadingIsGap)
    · rw [(gap_sound paired readLeading).1, reads.written_append, whole]
      simp [Tree.printTrimmed_eq]
  · simp at read

/-! ## Parsed sources print back -/

section RoundTrip

variable {source : Text} {path : Path} {tree : Tree}

/-- A source parses as a canonical document that prints as the source. -/
theorem document_of_parse
    (paired : source.hasPairedReturns = true)
    (parsed : parse source path = .ok tree) :
    exists value eof, tree = .build (.document ⟨path, none, none⟩ value eof) ∧ tree.IsCanonical ∧
      tree.printTrimmed = source := by
  unfold parse at parsed
  split at parsed
  · next read =>
      cases parsed
      exact document_sound paired read
  · cases parsed

/-- A source with paired returns prints back from the document that it parses as. -/
theorem print_parse
    (source : Text)
    (path : Path)
    (paired : source.hasPairedReturns = true)
    (tree : Tree)
    (parsed : parse source path = .ok tree) :
    tree.printTrimmed = source := by
  obtain ⟨_, _, -, -, printed⟩ := document_of_parse paired parsed
  exact printed

/-- An object with comments, an escaped letter, a number with an exponent, an empty list and trailing commas. -/
def commentedObject : Text :=
  "\x7b a : [1e2, // c\r\n ] ,\"b\\u0041\":[ /* d */ ],\x7d\r\n".toList

/-- The commented object is read and printed as it is. -/
theorem print_parse_commentedObject :
    commentedObject.hasPairedReturns = true ∧
      exists tree, parse commentedObject ⟨"a.json".toList⟩ = .ok tree ∧ tree.printTrimmed = commentedObject := by
  have paired : commentedObject.hasPairedReturns = true := by decide +kernel
  have isOk : (parse commentedObject ⟨"a.json".toList⟩).isOk = true := by decide +kernel
  refine ⟨paired, ?_⟩
  cases parsed : parse commentedObject ⟨"a.json".toList⟩ with
  | error =>
      rw [parsed] at isOk
      cases isOk
  | ok tree => exact ⟨tree, rfl, print_parse _ _ paired tree parsed⟩

end RoundTrip

end Json
end Lossless
