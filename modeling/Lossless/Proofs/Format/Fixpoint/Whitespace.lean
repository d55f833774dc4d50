import Lossless.Proofs.Format.CommentBody

/-!
# Whitespace that is formatted again

At the end of a formatting run every line of whitespace is finished by itself: its indentation is written in the
characters of the style, blanks before its line break are stripped, and the line break is made like the others. A
line that has been finished stays as it is, and so does whitespace all of whose lines have been finished, even if
what follows it is moved to its column once more.
-/

namespace Lossless
namespace Format

open Text

/-- A text with its line breaks made alike, if they are to be. -/
def alikeText
    (useCrlf : Option Bool)
    (text : Text) : Text :=
  match useCrlf with
  | none => text
  | some useCrlf => normalizeNewLines useCrlf text

/-- Whitespace without blanks at line ends, unless they are kept; at the end of a file nothing but line breaks stays. -/
def stripText
    (style : IndentStyle)
    (isEof : Bool)
    (text : Text) : Text :=
  if style.keepIndentsOnEmptyLines then text
  else if isEof then onlyLineBreaks text
  else stripTrailing text

/-- What becomes of whitespace once what follows it has been moved to its column. -/
def finish
    (style : IndentStyle)
    (useCrlf : Option Bool)
    (isEof : Bool)
    (text : Text) : Text :=
  alikeText useCrlf (stripText style isEof (Exact.retab style text))

/-! ## Lines -/

/-- A line with a line break made like the others. -/
def alikeLine
    (useCrlf : Option Bool)
    (line : Text) : Text :=
  match useCrlf with
  | none => line
  | some useCrlf => line.filter (fun char => char != '\r') ++ endingOf useCrlf

/-- A line without blanks before its line break, unless they are kept. -/
def stripLine
    (style : IndentStyle)
    (line : Text) : Text :=
  if style.keepIndentsOnEmptyLines then line else onlyLineBreaks line

/-- The last line, of which only the end of a file is stripped. -/
def stripLast
    (style : IndentStyle)
    (isEof : Bool)
    (last : Text) : Text :=
  if !style.keepIndentsOnEmptyLines && isEof then onlyLineBreaks last else last

/-- What becomes of a line between two line breaks. -/
def finishLine
    (style : IndentStyle)
    (useCrlf : Option Bool)
    (line : Text) : Text :=
  alikeLine useCrlf (stripLine style (Exact.retabLine style line))

section Lines

variable {style : IndentStyle} {useCrlf : Option Bool} {isEof : Bool} {line : Text}

theorem alikeLine_alikeLine (line : Text) : alikeLine useCrlf (alikeLine useCrlf line) = alikeLine useCrlf line := by
  cases useCrlf with
  | none => rfl
  | some useCrlf =>
      have noEnding : (endingOf useCrlf).filter (fun char => char != '\r') = [] := by cases useCrlf <;> rfl
      rw [alikeLine, alikeLine, List.filter_append, noEnding, List.append_nil, List.filter_filter]
      simp

theorem onlyLineBreaks_of_all (breaks : line.all isBreak = true) : onlyLineBreaks line = line :=
  List.filter_eq_self.2 (List.all_eq_true.1 breaks)

theorem all_alikeLine
    (useCrlf : Option Bool)
    (breaks : line.all isBreak = true) :
    (alikeLine useCrlf line).all isBreak = true := by
  cases useCrlf with
  | none => exact breaks
  | some useCrlf =>
      have ending : (endingOf useCrlf).all isBreak = true := by cases useCrlf <;> decide
      rw [alikeLine, List.all_append, ending, Bool.and_true]
      exact List.all_eq_true.2 fun char member => List.all_eq_true.1 breaks char (List.mem_filter.1 member).1

/-! ### Indentation -/

theorem indentWidth_indentString
    (style : IndentStyle)
    (column : Nat) :
    Exact.indentWidth style.tabSize (indentString style column) = column := by
  have tabs (count width : Nat) : (List.replicate count '\t').foldl (Exact.widthAfter style.tabSize) width =
      width + count * style.tabSize := by
    induction count generalizing width with
    | zero => simp
    | succ count ih =>
        rw [List.replicate_succ, List.foldl_cons, ih, Nat.succ_mul]
        simp only [Exact.widthAfter]
        simp
        omega
  have blanks (count width : Nat) : (List.replicate count ' ').foldl (Exact.widthAfter style.tabSize) width =
      width + count := by
    induction count generalizing width with
    | zero => rfl
    | succ count ih =>
        rw [List.replicate_succ, List.foldl_cons, ih]
        simp only [Exact.widthAfter]
        simp
        omega
  unfold Exact.indentWidth indentString
  split
  · rw [List.foldl_append, tabs, blanks, Nat.zero_add, Nat.div_add_mod']
  · rw [blanks, Nat.zero_add]

/-- What stands in front of the indentation does not count for the width once a line break comes after it. -/
theorem indentWidth_of_hasLines
    {text last : Text}
    {lines : List Text}
    (has : HasLines text lines last)
    (tabSize : Nat) :
    Exact.indentWidth tabSize text = Exact.indentWidth tabSize last := by
  rw [has.eq]
  clear has
  induction lines with
  | nil => rfl
  | cons line lines ih =>
      rw [← ih, ofLines_cons, Exact.indentWidth, List.foldl_append, List.foldl_cons]
      rfl

/-- Line breaks have no width. -/
theorem indentWidth_of_all
    (tabSize : Nat)
    (breaks : line.all isBreak = true) :
    Exact.indentWidth tabSize line = 0 := by
  unfold Exact.indentWidth
  induction line with
  | nil => rfl
  | cons first rest ih =>
      rw [List.all_cons, Bool.and_eq_true] at breaks
      have reset : Exact.widthAfter tabSize 0 first = 0 := by
        have isBreak := breaks.1
        simp only [Format.isBreak, Bool.or_eq_true, decide_eq_true_eq] at isBreak
        exact if_pos (by simp [isBreak.symm])
      rw [List.foldl_cons, reset]
      exact ih breaks.2

/-- Writing indentation anew does not change its width. -/
theorem indentWidth_retabLine (line : Text) :
    Exact.indentWidth style.tabSize (Exact.retabLine style line) = Exact.indentWidth style.tabSize line := by
  have parts : line.takeWhile isIndent ++ line.dropWhile isIndent = line := List.takeWhile_append_dropWhile
  calc Exact.indentWidth style.tabSize (Exact.retabLine style line)
    _ = (line.dropWhile isIndent).foldl (Exact.widthAfter style.tabSize) (Exact.indentWidth style.tabSize
          (indentString style (Exact.indentWidth style.tabSize (line.takeWhile isIndent)))) := List.foldl_append
    _ = (line.dropWhile isIndent).foldl (Exact.widthAfter style.tabSize)
          (Exact.indentWidth style.tabSize (line.takeWhile isIndent)) := by rw [indentWidth_indentString]
    _ = Exact.indentWidth style.tabSize (line.takeWhile isIndent ++ line.dropWhile isIndent) := List.foldl_append.symm
    _ = Exact.indentWidth style.tabSize line := by rw [parts]

theorem takeWhile_dropWhile
    (test : Char -> Bool)
    (text : Text) :
    (text.dropWhile test).takeWhile test = [] := by
  induction text with
  | nil => rfl
  | cons first rest ih =>
      rw [List.dropWhile_cons]
      split
      · exact ih
      · next fails => rw [List.takeWhile_cons, if_neg fails]

/-- Indentation that is in the characters of the style stays. -/
theorem retabLine_indented
    {rest : Text}
    (style : IndentStyle)
    (column : Nat)
    (solid : rest.takeWhile isIndent = []) :
    Exact.retabLine style (indentString style column ++ rest) = indentString style column ++ rest := by
  have indents (char : Char) (member : char ∈ indentString style column) : isIndent char = true :=
    isIndent_of_mem_indentString member
  have stays : rest.dropWhile isIndent = rest := by
    have parts := List.takeWhile_append_dropWhile (p := isIndent) (l := rest)
    rwa [solid] at parts
  rw [Exact.retabLine, List.takeWhile_append_of_pos indents, solid, List.append_nil, indentWidth_indentString,
    List.dropWhile_append_of_pos indents, stays]

theorem retabLine_retabLine (line : Text) : Exact.retabLine style (Exact.retabLine style line) = Exact.retabLine style line :=
  retabLine_indented style _ (takeWhile_dropWhile isIndent line)

theorem retabLine_indentString (column : Nat) :
    Exact.retabLine style (indentString style column) = indentString style column := by
  have same : Exact.retabLine style (indentString style column ++ []) = _ := retabLine_indented style column rfl
  rwa [List.append_nil] at same

/-- Line breaks are no indentation. -/
theorem retabLine_of_all (breaks : line.all isBreak = true) : Exact.retabLine style line = line := by
  have none : indentString style 0 = [] := by
    unfold indentString
    split <;> simp
  have solid : line.takeWhile isIndent = [] := by
    cases line with
    | nil => rfl
    | cons first rest =>
        have isBreak : isBreak first = true := List.all_eq_true.1 breaks first (List.mem_cons_self ..)
        have noIndent : ¬isIndent first = true := by
          simp only [Format.isBreak, Bool.or_eq_true, decide_eq_true_eq] at isBreak
          rcases isBreak with rfl | rfl <;> decide
        rw [List.takeWhile_cons, if_neg noIndent]
  have same := retabLine_indented style 0 solid
  rwa [none] at same

/-- Making the line break alike leaves the indentation alone. -/
theorem retabLine_alikeLine
    (blank : IsWhitespaceLine line)
    (noFeed : '\n' ∉ line) :
    Exact.retabLine style (alikeLine useCrlf (Exact.retabLine style line)) = alikeLine useCrlf (Exact.retabLine style line) := by
  cases useCrlf with
  | none => exact retabLine_retabLine line
  | some useCrlf =>
      have parts : line.takeWhile isIndent ++ line.dropWhile isIndent = line := List.takeWhile_append_dropWhile
      have paired : Text.isPaired (line.dropWhile isIndent) = true := by
        have whole : Text.isPaired (line.takeWhile isIndent ++ line.dropWhile isIndent) = true := by
          rw [parts]
          exact blank.2
        exact isPaired_of_append whole
      have noFeedRest : '\n' ∉ line.dropWhile isIndent := fun feed => noFeed ((List.dropWhile_suffix _).subset feed)
      have solid := takeWhile_dropWhile isIndent line
      obtain ⟨plain, noReturn, shape⟩ := (isPaired_iff noFeedRest).1 paired
      have kept : (line.dropWhile isIndent).filter (fun char => char != '\r') = plain := by
        have plainKept : plain.filter (fun char => char != '\r') = plain :=
          List.filter_eq_self.2 fun char member => bne_iff_ne.2 fun isReturn => noReturn (isReturn ▸ member)
        rcases shape with same | same <;> simp [same, plainKept]
      have indent : (indentString style (Exact.indentWidth style.tabSize (line.takeWhile isIndent))).filter
          (fun char => char != '\r') = indentString style (Exact.indentWidth style.tabSize (line.takeWhile isIndent)) :=
        List.filter_eq_self.2 fun char member => bne_iff_ne.2 fun isReturn =>
          (isWhitespaceEnd_indentString style _).1.2 (isReturn ▸ member)
      have alike : alikeLine (some useCrlf) (Exact.retabLine style line) =
          indentString style (Exact.indentWidth style.tabSize (line.takeWhile isIndent)) ++ (plain ++ endingOf useCrlf) := by
        rw [alikeLine, Exact.retabLine, List.filter_append, indent, kept, List.append_assoc]
      rw [alike]
      refine retabLine_indented style _ ?_
      cases plain with
      | nil => cases useCrlf <;> rfl
      | cons first plain =>
          have noIndent : ¬isIndent first = true := by
            intro indents
            rcases shape with same | same <;> simp [same, indents] at solid
          rw [List.cons_append, List.takeWhile_cons, if_neg noIndent]

/-! ### Finished lines -/

theorem finishLine_finishLine
    (blank : IsWhitespaceLine line)
    (noFeed : '\n' ∉ line) :
    finishLine style useCrlf (finishLine style useCrlf line) = finishLine style useCrlf line := by
  unfold finishLine stripLine
  split
  · rw [retabLine_alikeLine blank noFeed, alikeLine_alikeLine]
  · have breaks := all_alikeLine useCrlf (all_onlyLineBreaks (Exact.retabLine style line))
    rw [retabLine_of_all breaks, onlyLineBreaks_of_all breaks, alikeLine_alikeLine]

/-- The first line, before which there is no line break, is not indented. -/
theorem stripLine_alikeLine (line : Text) :
    alikeLine useCrlf (stripLine style (alikeLine useCrlf (stripLine style line))) =
      alikeLine useCrlf (stripLine style line) := by
  unfold stripLine
  split
  · exact alikeLine_alikeLine line
  · rw [onlyLineBreaks_of_all (all_alikeLine useCrlf (all_onlyLineBreaks line)), alikeLine_alikeLine]

theorem stripLast_stripLast (last : Text) :
    stripLast style isEof (stripLast style isEof last) = stripLast style isEof last := by
  unfold stripLast
  split
  · exact onlyLineBreaks_of_all (all_onlyLineBreaks last)
  · rfl

theorem finishLast_finishLast (last : Text) :
    stripLast style isEof (Exact.retabLine style (stripLast style isEof (Exact.retabLine style last))) =
      stripLast style isEof (Exact.retabLine style last) := by
  unfold stripLast
  split
  · have breaks := all_onlyLineBreaks (Exact.retabLine style last)
    rw [retabLine_of_all breaks, onlyLineBreaks_of_all breaks]
  · exact retabLine_retabLine last

end Lines

/-! ## Texts -/

section Texts

variable {style : IndentStyle} {useCrlf : Option Bool} {isEof : Bool}
variable {text first last : Text} {lines rest : List Text}

theorem hasLines_alikeText
    (useCrlf : Option Bool)
    (paired : text.hasPairedReturns = true)
    (has : HasLines text lines last) :
    HasLines (alikeText useCrlf text) (lines.map (alikeLine useCrlf)) last := by
  cases useCrlf with
  | none =>
      change HasLines text (lines.map id) last
      rwa [List.map_id]
  | some useCrlf => exact hasLines_normalizeNewLines useCrlf paired has

theorem hasLines_stripText
    (style : IndentStyle)
    (isEof : Bool)
    (has : HasLines text lines last) :
    HasLines (stripText style isEof text) (lines.map (stripLine style)) (stripLast style isEof last) := by
  have stripped : stripLine style = if style.keepIndentsOnEmptyLines then id else onlyLineBreaks := by
    funext line
    unfold stripLine
    split <;> rfl
  unfold stripText stripLast
  rw [stripped]
  cases style.keepIndentsOnEmptyLines
  · cases isEof
    · exact hasLines_stripTrailing has
    · exact hasLines_onlyLineBreaks has
  · rw [if_pos rfl, if_pos rfl, List.map_id]
    exact has

theorem isWhitespace_stripText (blank : text.IsWhitespace) : (stripText style isEof text).IsWhitespace := by
  unfold stripText
  split
  · exact blank
  · split
    · exact (onlyLineBreaks_kept blank).isWhitespace
    · exact (stripTrailing_kept blank).isWhitespace

theorem isWhitespace_finish (blank : text.IsWhitespace) : (finish style useCrlf isEof text).IsWhitespace := by
  have stripped : (stripText style isEof (Exact.retab style text)).IsWhitespace :=
    isWhitespace_stripText (retab_kept style blank).isWhitespace
  cases useCrlf with
  | none => exact stripped
  | some useCrlf => exact (normalizeNewLines_kept useCrlf stripped).isWhitespace

/-- The lines of whitespace, finished. -/
theorem hasLines_finish
    (style : IndentStyle)
    (useCrlf : Option Bool)
    (isEof : Bool)
    (blank : text.IsWhitespace)
    (has : HasLines text (first :: rest) last) :
    HasLines (finish style useCrlf isEof text)
      (alikeLine useCrlf (stripLine style first) :: rest.map (finishLine style useCrlf))
      (stripLast style isEof (Exact.retabLine style last)) := by
  have stripped := hasLines_stripText style isEof (hasLines_retab style has)
  have blankStripped : (stripText style isEof (Exact.retab style text)).IsWhitespace :=
    isWhitespace_stripText (retab_kept style blank).isWhitespace
  have alike := hasLines_alikeText useCrlf blankStripped.2 stripped
  rw [List.map_cons, List.map_cons, List.map_map, List.map_map] at alike
  exact alike

/-- Whitespace without line breaks, finished. -/
theorem finish_of_notMem
    (blank : text.IsWhitespace)
    (noFeed : '\n' ∉ text) :
    finish style useCrlf isEof text = stripLast style isEof text := by
  have single : HasLines (Exact.retab style text) [] text := by
    rw [retab_of_notMem style noFeed]
    exact .single noFeed
  have stripped := hasLines_stripText style isEof single
  have blankStripped : (stripText style isEof (Exact.retab style text)).IsWhitespace :=
    isWhitespace_stripText (retab_kept style blank).isWhitespace
  exact (hasLines_alikeText useCrlf blankStripped.2 stripped).eq

theorem count_finish (blank : text.IsWhitespace) : (finish style useCrlf isEof text).count '\n' = text.count '\n' := by
  obtain ⟨lines, last, has⟩ := exists_hasLines text
  cases lines with
  | nil =>
      have noFeed : '\n' ∉ text := fun feed => has.mem_iff.1 feed rfl
      have stripped := hasLines_stripText style isEof has
      have same : text = last := has.eq
      rw [finish_of_notMem blank noFeed, same, List.count_eq_zero.2 stripped.noFeedLast, List.count_eq_zero.2 has.noFeedLast]
  | cons first rest =>
      rw [(hasLines_finish style useCrlf isEof blank has).count_eq, has.count_eq, List.length_cons, List.length_cons,
        List.length_map]

theorem count_shiftWhitespace
    (column : Nat)
    (text : Text) :
    (shiftWhitespace style column text).count '\n' = text.count '\n' := by
  obtain ⟨lines, last, has⟩ := exists_hasLines text
  cases lines with
  | nil => rw [shiftWhitespace_of_notMem style column fun feed => has.mem_iff.1 feed rfl]
  | cons first rest =>
      rw [(hasLines_shiftWhitespace style column has).count_eq, has.count_eq, List.length_cons, List.length_cons]
      split
      · rw [List.length_map]
      · rfl

/-- Finishing whitespace again changes nothing. -/
theorem finish_finish (blank : text.IsWhitespace) :
    finish style useCrlf isEof (finish style useCrlf isEof text) = finish style useCrlf isEof text := by
  obtain ⟨lines, last, has⟩ := exists_hasLines text
  have blankNew : (finish style useCrlf isEof text).IsWhitespace := isWhitespace_finish blank
  cases lines with
  | nil =>
      have noFeed : '\n' ∉ text := fun feed => has.mem_iff.1 feed rfl
      have noFeedNew : '\n' ∉ finish style useCrlf isEof text := by
        rw [← List.count_eq_zero, count_finish blank, List.count_eq_zero]
        exact noFeed
      rw [finish_of_notMem blankNew noFeedNew, finish_of_notMem blank noFeed, stripLast_stripLast]
  | cons first rest =>
      obtain ⟨blankLines, -⟩ := has.isWhitespace_iff.1 blank
      have hasNew := hasLines_finish style useCrlf isEof blank has
      have hasAgain := hasLines_finish style useCrlf isEof blankNew hasNew
      have lines : (rest.map (finishLine style useCrlf)).map (finishLine style useCrlf) =
          rest.map (finishLine style useCrlf) := by
        rw [List.map_map]
        refine List.map_congr_left fun line member => ?_
        have inside := List.mem_cons_of_mem first member
        exact finishLine_finishLine (blankLines line inside) (has.noFeed line inside)
      rw [hasAgain.eq, hasNew.eq, lines, stripLine_alikeLine, finishLast_finishLast]

/-- What has been moved to a column and finished stays there. -/
theorem finish_shift_finish
    (column : Nat)
    (blank : text.IsWhitespace) :
    let moved := finish style useCrlf isEof (shiftWhitespace style column text)
    finish style useCrlf isEof (shiftWhitespace style column moved) = moved := by
  intro moved
  have blankShifted := (shiftWhitespace_kept style column blank).isWhitespace
  have blankMoved : moved.IsWhitespace := isWhitespace_finish blankShifted
  obtain ⟨lines, last, has⟩ := exists_hasLines text
  cases lines with
  | nil =>
      have noFeed : '\n' ∉ text := fun feed => has.mem_iff.1 feed rfl
      have noFeedMoved : '\n' ∉ moved := by
        rw [← List.count_eq_zero, count_finish blankShifted, count_shiftWhitespace, List.count_eq_zero]
        exact noFeed
      rw [shiftWhitespace_of_notMem style column noFeedMoved]
      exact finish_finish blankShifted
  | cons first rest =>
      obtain ⟨blankLines, -⟩ := has.isWhitespace_iff.1 blank
      have hasMoved := hasLines_finish style useCrlf isEof blankShifted (hasLines_shiftWhitespace style column has)
      have blankAgain := (shiftWhitespace_kept style column blankMoved).isWhitespace
      have hasAgain := hasLines_finish style useCrlf isEof blankAgain (hasLines_shiftWhitespace style column hasMoved)
      change HasLines moved _ _ at hasMoved
      rw [hasAgain.eq, hasMoved.eq, stripLine_alikeLine]
      congr 2
      split
      · rw [List.map_map, List.map_map, List.map_map, List.map_map]
        rfl
      · rw [List.map_map]
        refine List.map_congr_left fun line member => ?_
        have inside := List.mem_cons_of_mem first member
        exact finishLine_finishLine (blankLines line inside) (has.noFeed line inside)

/-- What has been moved stands in its column. -/
theorem indentWidth_finish_shift
    {column : Nat}
    (blank : text.IsWhitespace)
    (feed : '\n' ∈ text)
    (eof : isEof = true -> column = 0) :
    Exact.indentWidth style.tabSize (finish style useCrlf isEof (shiftWhitespace style column text)) = column := by
  obtain ⟨lines, last, has⟩ := exists_hasLines text
  cases lines with
  | nil => exact absurd rfl (has.mem_iff.1 feed)
  | cons first rest =>
      have blankShifted := (shiftWhitespace_kept style column blank).isWhitespace
      have hasMoved := hasLines_finish style useCrlf isEof blankShifted (hasLines_shiftWhitespace style column has)
      rw [indentWidth_of_hasLines hasMoved, retabLine_indentString, stripLast]
      split
      · next stripped =>
          rw [Bool.and_eq_true] at stripped
          have noBreak : onlyLineBreaks (indentString style column) = [] := by
            refine List.filter_eq_nil_iff.2 fun char member isBreak => ?_
            have indents := isIndent_of_mem_indentString member
            simp only [Format.isBreak, Bool.or_eq_true, decide_eq_true_eq] at isBreak
            rcases isBreak with rfl | rfl <;> cases indents
          rw [noBreak, eof stripped.2]
          rfl
      · exact indentWidth_indentString style column

/-- What stands in the first column stays there when whitespace is finished. -/
theorem indentWidth_finish_of_zero
    (blank : text.IsWhitespace)
    (feed : '\n' ∈ text)
    (zero : Exact.indentWidth style.tabSize text = 0) :
    Exact.indentWidth style.tabSize (finish style useCrlf isEof text) = 0 := by
  obtain ⟨lines, last, has⟩ := exists_hasLines text
  cases lines with
  | nil => exact absurd rfl (has.mem_iff.1 feed)
  | cons first rest =>
      rw [indentWidth_of_hasLines (hasLines_finish style useCrlf isEof blank has), stripLast]
      rw [indentWidth_of_hasLines has] at zero
      split
      · exact indentWidth_of_all _ (all_onlyLineBreaks _)
      · rw [indentWidth_retabLine, zero]

theorem isBody_alikeText (isBody : IsBody text) : IsBody (alikeText useCrlf text) := by
  cases useCrlf with
  | none => exact isBody
  | some useCrlf => exact normalizeNewLines_isBody useCrlf isBody

theorem alikeText_alikeText (isBody : IsBody text) :
    alikeText useCrlf (alikeText useCrlf text) = alikeText useCrlf text := by
  obtain ⟨lines, last, has⟩ := exists_hasLines text
  have hasNew := hasLines_alikeText useCrlf isBody.paired has
  have hasAgain := hasLines_alikeText useCrlf (isBody_alikeText isBody).paired hasNew
  rw [hasAgain.eq, hasNew.eq, List.map_map]
  exact congrArg (ofLines · last) (List.map_congr_left fun line _ => alikeLine_alikeLine line)

end Texts

end Format
end Lossless
