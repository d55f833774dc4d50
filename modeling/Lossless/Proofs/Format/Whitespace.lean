import Lossless.Proofs.Format.Exact
import Lossless.Proofs.Text.Lines
import Mathlib.Data.List.Induction
import Mathlib.Data.List.TakeWhile

/-!
# What the passes make of whitespace

Every pass changes whitespace line by line. Whitespace stays whitespace with paired returns, it keeps or lacks a
line break as before, and a line break at its start stays there, so that what it ends stays ended.
-/

namespace Lossless

namespace Text

/-- Blanks with paired returns. -/
def IsWhitespace (text : Text) : Prop :=
  text.all isBlank = true ∧ text.hasPairedReturns = true

/-- A line of blanks with a line feed behind it. -/
def IsWhitespaceLine (line : Text) : Prop :=
  line.all isBlank = true ∧ line.isPaired = true

/-- Blanks that no line feed comes after. -/
def IsWhitespaceEnd (last : Text) : Prop :=
  last.all isBlank = true ∧ '\r' ∉ last

theorem HasLines.isWhitespace_iff
    {text last : Text}
    {lines : List Text}
    (has : HasLines text lines last) :
    text.IsWhitespace ↔ (forall line, line ∈ lines -> IsWhitespaceLine line) ∧ IsWhitespaceEnd last := by
  rw [IsWhitespace, has.all_iff (by decide), has.paired_iff]
  simp only [IsWhitespaceLine, IsWhitespaceEnd]
  grind

/-- Blanks for indentation come before a line without changing what is paired in it. -/
theorem isPaired_append
    {front line : Text}
    (noReturn : '\r' ∉ front) :
    (front ++ line).isPaired = line.isPaired := by
  unfold isPaired
  induction front with
  | nil => rfl
  | cons first front ih =>
      rw [List.mem_cons, not_or] at noReturn
      rw [List.cons_append, List.cons_append, hasPairedReturns, ih noReturn.2]
      simp [Ne.symm noReturn.1]

theorem isPaired_of_append
    {front line : Text}
    (paired : (front ++ line).isPaired = true) :
    line.isPaired = true := by
  rw [isPaired, List.append_assoc] at paired
  exact hasPairedReturns_of_append paired

theorem IsWhitespaceEnd.append
    {front last : Text}
    (blankFront : IsWhitespaceEnd front)
    (blank : IsWhitespaceEnd last) :
    IsWhitespaceEnd (front ++ last) := by
  refine ⟨?_, ?_⟩
  · rw [List.all_append, blankFront.1, blank.1]
    rfl
  · rw [List.mem_append, not_or]
    exact ⟨blankFront.2, blank.2⟩

/-- Blanks without returns at the start of a line of whitespace. -/
theorem isWhitespaceLine_append
    {front line : Text}
    (blankFront : front.all isBlank = true)
    (noReturn : '\r' ∉ front)
    (blank : IsWhitespaceLine line) :
    IsWhitespaceLine (front ++ line) := by
  refine ⟨?_, ?_⟩
  · rw [List.all_append, blankFront, blank.1]
    rfl
  · rw [isPaired_append noReturn]
    exact blank.2

theorem isWhitespaceLine_of_isEnding
    {ending : Text}
    (isEnding : ending = [] ∨ ending = ['\r']) :
    IsWhitespaceLine ending := by
  rcases isEnding with rfl | rfl <;> exact ⟨by decide, by decide +kernel⟩

/-- Without returns, whitespace can stand at the end of a line as well. -/
theorem IsWhitespaceEnd.line
    {last : Text}
    (blank : IsWhitespaceEnd last) :
    IsWhitespaceLine last := by
  refine ⟨blank.1, ?_⟩
  have paired : (last ++ []).isPaired = isPaired [] := isPaired_append blank.2
  rw [List.append_nil] at paired
  rw [paired]
  rfl

end Text

namespace Format

open Text

variable {text last first : Text} {lines rest : List Text}

/-! ## Indentation -/

theorem isIndent_of_mem_indentString
    {style : IndentStyle}
    {column : Nat}
    {char : Char}
    (member : char ∈ indentString style column) :
    isIndent char = true := by
  unfold indentString at member
  split at member
  · rcases List.mem_append.1 member with tab | blank
    · rw [List.eq_of_mem_replicate tab]
      rfl
    · rw [List.eq_of_mem_replicate blank]
      rfl
  · rw [List.eq_of_mem_replicate member]
    rfl

theorem isBlank_of_isIndent
    {char : Char}
    (indents : isIndent char = true) :
    isBlank char = true := by
  simp only [isIndent, Bool.or_eq_true, decide_eq_true_eq] at indents
  rcases indents with rfl | rfl <;> decide

/-- Indentation is whitespace without line breaks. -/
theorem isWhitespaceEnd_indentString
    (style : IndentStyle)
    (column : Nat) :
    IsWhitespaceEnd (indentString style column) ∧ '\n' ∉ indentString style column := by
  refine ⟨⟨?_, ?_⟩, ?_⟩
  · exact List.all_eq_true.2 fun char member => isBlank_of_isIndent (isIndent_of_mem_indentString member)
  · exact fun member => by cases isIndent_of_mem_indentString member
  · exact fun member => by cases isIndent_of_mem_indentString member

/-- The lines of whitespace of which what follows is moved to a column. -/
theorem hasLines_shiftWhitespace
    (style : IndentStyle)
    (column : Nat)
    (has : HasLines text (first :: rest) last) :
    HasLines (shiftWhitespace style column text)
      (first :: if style.keepIndentsOnEmptyLines then rest.map fun _ => indentString style column else rest)
      (indentString style column) := by
  obtain ⟨here, later⟩ := List.forall_mem_cons.1 has.noFeed
  have noFeed := (isWhitespaceEnd_indentString style column).2
  have front : HasLines (ofLines (first :: rest) []) (first :: rest) [] := ⟨rfl, has.noFeed, List.not_mem_nil⟩
  have empty (lines : List Text) : emptyLines (indentString style column) (lines ++ [[]]) =
      '\n' :: ofLines (lines.map fun _ => indentString style column) [] := by
    induction lines with
    | nil => rfl
    | cons line lines ih =>
        rw [List.map_cons, ofLines_cons, ← ih]
        cases lines <;> rfl
  constructor
  · rw [shiftWhitespace, has.splitLast?_eq, if_neg (by simp)]
    dsimp only
    split
    · rw [indentEmptyLines, front.splitAt_eq, List.cons_append]
      dsimp only
      rw [empty, ofLines_cons, ofLines_eq_append _ (indentString style column)]
      simp
    · exact (ofLines_eq_append _ _).symm
  · refine List.forall_mem_cons.2 ⟨here, ?_⟩
    split
    · exact List.forall_mem_map.2 fun _ _ => noFeed
    · exact later
  · exact noFeed

theorem shiftWhitespace_of_notMem
    (style : IndentStyle)
    (column : Nat)
    (noFeed : '\n' ∉ text) :
    shiftWhitespace style column text = text := by
  rw [shiftWhitespace, splitLast?_of_notMem noFeed]

theorem mem_retabLine
    {style : IndentStyle}
    {char : Char}
    {line : Text}
    (member : char ∈ Exact.retabLine style line) :
    isIndent char = true ∨ char ∈ line := by
  rcases List.mem_append.1 member with indents | inside
  · exact .inl (isIndent_of_mem_indentString indents)
  · exact .inr ((List.dropWhile_suffix _).subset inside)

theorem notMem_retabLine
    {style : IndentStyle}
    {char : Char}
    {line : Text}
    (solid : isIndent char = false)
    (absent : char ∉ line) :
    char ∉ Exact.retabLine style line := by
  intro member
  rcases mem_retabLine member with indents | inside
  · rw [solid] at indents
    cases indents
  · exact absent inside

theorem hasLines_retab
    (style : IndentStyle)
    (has : HasLines text (first :: rest) last) :
    HasLines (Exact.retab style text) (first :: rest.map (Exact.retabLine style)) (Exact.retabLine style last) :=
  has.mapContinuations fun _ => notMem_retabLine rfl

theorem retab_of_notMem
    (style : IndentStyle)
    (noFeed : '\n' ∉ text) :
    Exact.retab style text = text :=
  mapContinuations_of_notMem noFeed

theorem isBlank_retabLine
    {style : IndentStyle}
    {line : Text}
    (blank : line.all isBlank = true) :
    (Exact.retabLine style line).all isBlank = true := by
  refine List.all_eq_true.2 fun char member => ?_
  rcases mem_retabLine member with indents | inside
  · exact isBlank_of_isIndent indents
  · exact List.all_eq_true.1 blank char inside

theorem isWhitespaceLine_retabLine
    {style : IndentStyle}
    {line : Text}
    (blank : IsWhitespaceLine line) :
    IsWhitespaceLine (Exact.retabLine style line) := by
  refine ⟨isBlank_retabLine blank.1, ?_⟩
  have paired : Text.isPaired (line.takeWhile isIndent ++ line.dropWhile isIndent) = true := by
    rw [List.takeWhile_append_dropWhile]
    exact blank.2
  rw [Exact.retabLine, isPaired_append (isWhitespaceEnd_indentString style _).1.2]
  exact isPaired_of_append paired

/-! ## Line ends -/

theorem all_onlyLineBreaks (text : Text) : (onlyLineBreaks text).all isBreak = true :=
  List.all_eq_true.2 fun _ member => (List.mem_filter.1 member).2

theorem hasLines_onlyLineBreaks (has : HasLines text lines last) :
    HasLines (onlyLineBreaks text) (lines.map onlyLineBreaks) (onlyLineBreaks last) :=
  has.filter rfl

theorem hasLines_stripTrailing (has : HasLines text lines last) :
    HasLines (stripTrailing text) (lines.map onlyLineBreaks) last := by
  cases lines with
  | nil =>
      have same : text = last := has.eq
      rw [stripTrailing, has.splitLast?_eq, if_pos rfl, same]
      exact .single has.noFeedLast
  | cons first rest =>
      have front : HasLines (ofLines (first :: rest) []) (first :: rest) [] := ⟨rfl, has.noFeed, List.not_mem_nil⟩
      have stripped := hasLines_onlyLineBreaks front
      refine ⟨?_, stripped.noFeed, has.noFeedLast⟩
      rw [stripTrailing, has.splitLast?_eq, if_neg (by simp)]
      dsimp only
      rw [stripped.eq, onlyLineBreaks, List.filter_nil, ← ofLines_eq_append]

/-- A filtered line of whitespace is one. -/
theorem isWhitespaceLine_filter
    (test : Char -> Bool)
    (feed : test '\n' = true)
    {line : Text}
    (blank : IsWhitespaceLine line) :
    IsWhitespaceLine (line.filter test) := by
  refine ⟨List.all_eq_true.2 fun char member => ?_, ?_⟩
  · exact List.all_eq_true.1 blank.1 char (List.mem_filter.1 member).1
  · have filtered : (line ++ ['\n']).filter test = line.filter test ++ ['\n'] := by simp [feed]
    rw [isPaired, ← filtered]
    exact hasPairedReturns_filter feed blank.2

theorem isWhitespaceEnd_filter
    (test : Char -> Bool)
    {line : Text}
    (blank : IsWhitespaceEnd line) :
    IsWhitespaceEnd (line.filter test) :=
  ⟨List.all_eq_true.2 fun char member => List.all_eq_true.1 blank.1 char (List.mem_filter.1 member).1,
    fun member => blank.2 (List.mem_filter.1 member).1⟩

theorem flatten_replicate_feed
    (ending : Text)
    (count : Nat)
    (last : Text) :
    (List.replicate count (ending ++ ['\n'])).flatten ++ last = ofLines (List.replicate count ending) last := by
  induction count with
  | zero => rfl
  | succ count ih => rw [List.replicate_succ, List.replicate_succ, List.flatten_cons, ofLines_cons, ← ih]; simp

theorem takeWhile_feed
    (first rest : Text) :
    (first ++ '\n' :: rest).takeWhile (fun char => !isBreak char) = first.takeWhile fun char => !isBreak char := by
  induction first with
  | nil => rfl
  | cons head first ih => rw [List.cons_append, List.takeWhile_cons, List.takeWhile_cons, ih]

/-- The lines that are left of too many blank lines. -/
theorem hasLines_keepMaximumBreaks
    {breaks : Nat}
    (some : 0 < breaks)
    (has : HasLines text (first :: rest) last)
    (many : breaks < text.count '\n') :
    exists ending, (ending = [] ∨ ending = ['\r']) ∧
      HasLines (keepMaximumBreaks breaks text)
        ((first.takeWhile (fun char => !isBreak char) ++ ending) ::
          List.replicate (breaks - 1) ending) last := by
  obtain ⟨ending, newLine, isEnding⟩ : exists ending : Text,
      (if containsCrlf text then ['\r', '\n'] else ['\n']) = ending ++ ['\n'] ∧ (ending = [] ∨ ending = ['\r']) := by
    split
    · exact ⟨['\r'], rfl, .inr rfl⟩
    · exact ⟨[], rfl, .inl rfl⟩
  have noFeed : '\n' ∉ ending := by rcases isEnding with rfl | rfl <;> decide
  obtain ⟨count, isCount⟩ := Nat.exists_eq_succ_of_ne_zero (Nat.pos_iff_ne_zero.1 some)
  refine ⟨ending, isEnding, ?_, ?_, has.noFeedLast⟩
  · have front : text.takeWhile (fun char => !isBreak char) = first.takeWhile fun char => !isBreak char := by
      rw [has.eq, ofLines_cons, takeWhile_feed]
    rw [keepMaximumBreaks]
    dsimp only
    rw [if_neg (by omega), newLine, front, has.afterLast_eq, List.append_assoc, flatten_replicate_feed, isCount,
      List.replicate_succ, ofLines_cons, ofLines_cons]
    simp
  · refine List.forall_mem_cons.2 ⟨?_, fun line member => ?_⟩
    · rw [List.mem_append, not_or]
      refine ⟨fun inside => has.noFeed first (List.mem_cons_self ..) ?_, noFeed⟩
      exact (List.takeWhile_prefix _).subset inside
    · rw [List.eq_of_mem_replicate member]
      exact noFeed

theorem keepMaximumBreaks_of_few
    {breaks : Nat}
    (few : text.count '\n' ≤ breaks) :
    keepMaximumBreaks breaks text = text :=
  if_pos few

/-- No more line breaks are left than are to be kept. -/
theorem count_keepMaximumBreaks
    (breaks : Nat)
    (text : Text) :
    (keepMaximumBreaks breaks text).count '\n' ≤ breaks := by
  by_cases few : text.count '\n' ≤ breaks
  · rwa [keepMaximumBreaks_of_few few]
  · obtain ⟨lines, last, has⟩ := exists_hasLines text
    have front : (text.takeWhile fun char => !isBreak char).count '\n' = 0 :=
      List.count_eq_zero.2 fun member => by simpa [isBreak] using List.mem_takeWhile_imp member
    have back : (afterLast '\n' text).count '\n' = 0 := by
      rw [has.afterLast_eq]
      exact List.count_eq_zero.2 has.noFeedLast
    have newLine : (if containsCrlf text then ['\r', '\n'] else ['\n']).count '\n' = 1 := by split <;> rfl
    have newLines (number : Nat) :
        (List.replicate number (if containsCrlf text then ['\r', '\n'] else ['\n'])).flatten.count '\n' = number := by
      induction number with
      | zero => rfl
      | succ number ih => rw [List.replicate_succ, List.flatten_cons, List.count_append, newLine, ih, Nat.add_comm]
    rw [keepMaximumBreaks, if_neg few, List.count_append, List.count_append, front, back, newLines]
    omega

/-- Making line feeds of paired line breaks drops the returns. -/
theorem replace_eq_filter (paired : text.hasPairedReturns = true) :
    Text.replace ['\r', '\n'] ['\n'] text = text.filter (fun char => char != '\r') := by
  rw [Text.replace]
  induction text using List.twoStepInduction with
  | nil => rfl
  | singleton first =>
      have noReturn : first ≠ '\r' := by simpa [hasPairedReturns] using paired
      simp [replaceFrom, dropStart?, noReturn, Ne.symm noReturn]
  | cons_cons first second rest skipped ih =>
      by_cases isReturn : first = '\r'
      · subst isReturn
        obtain ⟨tail, same⟩ := exists_feed_of_hasPairedReturns paired
        obtain ⟨rfl, rfl⟩ := List.cons.inj same
        have others := skipped (hasPairedReturns_tail (hasPairedReturns_tail paired))
        simpa [replaceFrom, dropStart?] using others
      · have others := ih second (hasPairedReturns_tail paired)
        rw [replaceFrom, dropStart?, if_neg (Ne.symm isReturn), List.filter_cons, if_pos (by simp [isReturn]), others]

/-- What a line break that is made alike has before its line feed. -/
def endingOf (useCrlf : Bool) : Text :=
  if useCrlf then ['\r'] else []

theorem replaceChar_of_notMem
    {line : Text}
    (absent : '\n' ∉ line) :
    Text.replaceChar '\n' ['\r', '\n'] line = line := by
  induction line with
  | nil => rfl
  | cons first rest ih =>
      rw [List.mem_cons, not_or] at absent
      rw [Text.replaceChar, List.flatMap_cons, if_neg (Ne.symm absent.1)]
      exact congrArg (first :: ·) (ih absent.2)

theorem replaceChar_feed
    (noFeed : forall line, line ∈ lines -> '\n' ∉ line)
    (noFeedLast : '\n' ∉ last) :
    Text.replaceChar '\n' ['\r', '\n'] (ofLines lines last) = ofLines (lines.map (· ++ ['\r'])) last := by
  induction lines with
  | nil => exact replaceChar_of_notMem noFeedLast
  | cons line lines ih =>
      obtain ⟨here, later⟩ := List.forall_mem_cons.1 noFeed
      have others := ih later
      rw [ofLines_cons, replaceChar_append, replaceChar_of_notMem here, List.map_cons, ofLines_cons, List.append_assoc]
      rw [Text.replaceChar] at others ⊢
      rw [List.flatMap_cons, others]
      rfl

/-- The lines of a text whose line breaks are made alike. -/
theorem hasLines_normalizeNewLines
    (useCrlf : Bool)
    (paired : text.hasPairedReturns = true)
    (has : HasLines text lines last) :
    HasLines (normalizeNewLines useCrlf text)
      (lines.map fun line => line.filter (fun char => char != '\r') ++ endingOf useCrlf) last := by
  have noReturn : last.filter (fun char => char != '\r') = last := by
    refine List.filter_eq_self.2 fun char member => ?_
    have absent := (has.paired_iff.1 paired).2
    exact bne_iff_ne.2 fun isReturn => absent (isReturn ▸ member)
  have plain : HasLines (text.filter fun char => char != '\r') _ _ := has.filter rfl
  rw [noReturn] at plain
  rw [normalizeNewLines, replace_eq_filter paired]
  cases useCrlf with
  | false =>
      simp only [endingOf, Bool.false_eq_true, if_false, List.append_nil]
      exact plain
  | true =>
      refine ⟨?_, List.forall_mem_map.2 fun line member inside => ?_, plain.noFeedLast⟩
      · rw [if_pos rfl, plain.eq, replaceChar_feed plain.noFeed plain.noFeedLast, List.map_map]
        rfl
      · rcases List.mem_append.1 inside with kept | ending
        · exact plain.noFeed _ (List.mem_map_of_mem member) kept
        · cases List.mem_singleton.1 ending

/-! ## What stays -/

/-- Whitespace that is left of whitespace; what it ends it still does. -/
structure WhitespaceKept (old new : Text) : Prop where
  isWhitespace : new.IsWhitespace
  startsBreak : old.startsBreak = true -> new.startsBreak = true
  nil : old = [] -> new = []

/-- Texts that break the line both or neither, and are empty both or neither. -/
structure SameShape (old new : Text) : Prop where
  contains_eq : new.contains '\n' = old.contains '\n'
  eq_nil_iff : new = [] ↔ old = []

theorem WhitespaceKept.refl (blank : text.IsWhitespace) : WhitespaceKept text text :=
  ⟨blank, id, id⟩

theorem SameShape.refl (text : Text) : SameShape text text :=
  ⟨rfl, Iff.rfl⟩

theorem WhitespaceKept.of_lines
    {new firstNew lastNew : Text}
    {restNew : List Text}
    (has : HasLines text (first :: rest) last)
    (hasNew : HasLines new (firstNew :: restNew) lastNew)
    (blank : forall line, line ∈ firstNew :: restNew -> IsWhitespaceLine line)
    (blankLast : IsWhitespaceEnd lastNew)
    (starts : first = [] ∨ first = ['\r'] -> firstNew = [] ∨ firstNew = ['\r']) :
    WhitespaceKept text new where
  isWhitespace := hasNew.isWhitespace_iff.2 ⟨blank, blankLast⟩
  startsBreak := fun startsBreak => by
    obtain ⟨_, _, same, isBreak⟩ := has.startsBreak_iff.1 startsBreak
    obtain ⟨rfl, rfl⟩ := List.cons.inj same
    exact hasNew.startsBreak_iff.2 ⟨_, _, rfl, starts isBreak⟩
  nil := fun none => by cases (has.isEmpty_iff.1 none).1

/-- A change of whitespace that leaves alone what has no line break, and makes lines of whitespace of such lines. -/
theorem whitespaceKept_of_cases
    {change : Text -> Text}
    (blank : text.IsWhitespace)
    (alone : '\n' ∉ text -> change text = text)
    (atLines : forall first rest last, HasLines text (first :: rest) last ->
      (forall line, line ∈ first :: rest -> IsWhitespaceLine line) -> IsWhitespaceEnd last ->
        WhitespaceKept text (change text)) :
    WhitespaceKept text (change text) := by
  obtain ⟨lines, last, has⟩ := exists_hasLines text
  obtain ⟨blankLines, blankLast⟩ := has.isWhitespace_iff.1 blank
  cases lines with
  | nil =>
      rw [alone fun feed => has.mem_iff.1 feed rfl]
      exact .refl blank
  | cons first rest => exact atLines first rest last has blankLines blankLast

/-- A change that leaves alone what has no line break, and does not take every line break away. -/
theorem sameShape_of_cases
    {change : Text -> Text}
    (alone : '\n' ∉ text -> change text = text)
    (atLines : forall first rest last, HasLines text (first :: rest) last -> '\n' ∈ change text) :
    SameShape text (change text) := by
  obtain ⟨lines, last, has⟩ := exists_hasLines text
  cases lines with
  | nil =>
      rw [alone fun feed => has.mem_iff.1 feed rfl]
      exact .refl text
  | cons first rest =>
      have feedNew := atLines first rest last has
      refine ⟨?_, ?_⟩
      · rw [List.contains_iff_mem.2 has.feed, List.contains_iff_mem.2 feedNew]
      · exact iff_of_false (List.ne_nil_of_mem feedNew) (List.ne_nil_of_mem has.feed)

section Indentation

variable (style : IndentStyle) (column : Nat)

theorem shiftWhitespace_kept (blank : text.IsWhitespace) :
    WhitespaceKept text (shiftWhitespace style column text) := by
  refine whitespaceKept_of_cases blank (shiftWhitespace_of_notMem style column) fun first rest last has blankLines _ => ?_
  have indent := (isWhitespaceEnd_indentString style column).1
  refine .of_lines has (hasLines_shiftWhitespace style column has) ?_ indent id
  obtain ⟨here, later⟩ := List.forall_mem_cons.1 blankLines
  refine List.forall_mem_cons.2 ⟨here, ?_⟩
  split
  · exact List.forall_mem_map.2 fun _ _ => indent.line
  · exact later

theorem shiftWhitespace_sameShape (text : Text) : SameShape text (shiftWhitespace style column text) :=
  sameShape_of_cases (shiftWhitespace_of_notMem style column) fun _ _ _ has =>
    (hasLines_shiftWhitespace style column has).feed

theorem retab_kept (blank : text.IsWhitespace) : WhitespaceKept text (Exact.retab style text) := by
  refine whitespaceKept_of_cases blank (retab_of_notMem style) fun first rest last has blankLines blankLast => ?_
  obtain ⟨here, later⟩ := List.forall_mem_cons.1 blankLines
  refine .of_lines has (hasLines_retab style has) ?_ ⟨isBlank_retabLine blankLast.1, notMem_retabLine rfl blankLast.2⟩ id
  exact List.forall_mem_cons.2 ⟨here, List.forall_mem_map.2 fun line member =>
    isWhitespaceLine_retabLine (later line member)⟩

theorem retab_sameShape (text : Text) : SameShape text (Exact.retab style text) :=
  sameShape_of_cases (retab_of_notMem style) fun _ _ _ has => (hasLines_retab style has).feed

end Indentation

theorem stripTrailing_of_notMem (noFeed : '\n' ∉ text) : stripTrailing text = text := by
  rw [stripTrailing, splitLast?_of_notMem noFeed]

theorem stripTrailing_kept (blank : text.IsWhitespace) : WhitespaceKept text (stripTrailing text) := by
  refine whitespaceKept_of_cases blank stripTrailing_of_notMem fun first rest last has blankLines blankLast => ?_
  refine .of_lines has (hasLines_stripTrailing has) ?_ blankLast ?_
  · exact List.forall_mem_map.2 fun line member => isWhitespaceLine_filter _ rfl (blankLines line member)
  · rintro (rfl | rfl)
    · exact .inl rfl
    · exact .inr rfl

theorem stripTrailing_sameShape (text : Text) : SameShape text (stripTrailing text) :=
  sameShape_of_cases stripTrailing_of_notMem fun _ _ _ has => (hasLines_stripTrailing has).feed

theorem keepMaximumBreaks_kept
    {breaks : Nat}
    (some : 0 < breaks)
    (blank : text.IsWhitespace) :
    WhitespaceKept text (keepMaximumBreaks breaks text) := by
  by_cases few : text.count '\n' ≤ breaks
  · rw [keepMaximumBreaks_of_few few]
    exact .refl blank
  refine whitespaceKept_of_cases blank (fun noFeed => ?_) fun first rest last has blankLines blankLast => ?_
  · rw [List.count_eq_zero.2 noFeed] at few
    exact absurd (Nat.zero_le _) few
  · obtain ⟨ending, isEnding, hasNew⟩ := hasLines_keepMaximumBreaks some has (Nat.lt_of_not_le few)
    have blankEnding := isWhitespaceLine_of_isEnding isEnding
    refine .of_lines has hasNew (List.forall_mem_cons.2 ⟨?_, fun line member => ?_⟩) blankLast ?_
    · have noBreak {char : Char} (member : char ∈ first.takeWhile fun char => !isBreak char) :
          char ∈ first ∧ isBreak char = false := by
        refine ⟨(List.takeWhile_prefix _).subset member, ?_⟩
        simpa using List.mem_takeWhile_imp member
      refine isWhitespaceLine_append (List.all_eq_true.2 fun char member => ?_) (fun member => ?_) blankEnding
      · exact List.all_eq_true.1 (blankLines first (List.mem_cons_self ..)).1 char (noBreak member).1
      · cases (noBreak member).2
    · rw [List.eq_of_mem_replicate member]
      exact blankEnding
    · rintro (rfl | rfl)
      · exact isEnding
      · exact isEnding

theorem keepMaximumBreaks_sameShape
    {breaks : Nat}
    (some : 0 < breaks)
    (text : Text) :
    SameShape text (keepMaximumBreaks breaks text) := by
  by_cases few : text.count '\n' ≤ breaks
  · rw [keepMaximumBreaks_of_few few]
    exact .refl text
  refine sameShape_of_cases (fun noFeed => ?_) fun first rest last has => ?_
  · rw [List.count_eq_zero.2 noFeed] at few
    exact absurd (Nat.zero_le _) few
  · obtain ⟨_, _, hasNew⟩ := hasLines_keepMaximumBreaks some has (Nat.lt_of_not_le few)
    exact hasNew.feed

theorem isEnding_endingOf (useCrlf : Bool) : endingOf useCrlf = [] ∨ endingOf useCrlf = ['\r'] := by
  cases useCrlf
  · exact .inl rfl
  · exact .inr rfl

theorem normalizeNewLines_kept
    (useCrlf : Bool)
    (blank : text.IsWhitespace) :
    WhitespaceKept text (normalizeNewLines useCrlf text) := by
  refine whitespaceKept_of_cases blank (fun noFeed => ?_) fun first rest last has blankLines blankLast => ?_
  · exact (hasLines_normalizeNewLines useCrlf blank.2 (.single noFeed)).eq
  · refine .of_lines has (hasLines_normalizeNewLines useCrlf blank.2 has) ?_ blankLast ?_
    · have alike (line : Text) (member : line ∈ first :: rest) :
          IsWhitespaceLine (line.filter (fun char => char != '\r') ++ endingOf useCrlf) := by
        have kept := isWhitespaceLine_filter (fun char => char != '\r') rfl (blankLines line member)
        exact isWhitespaceLine_append kept.1 (by simp) (isWhitespaceLine_of_isEnding (isEnding_endingOf useCrlf))
      exact List.forall_mem_map.2 alike
    · rintro (rfl | rfl)
      · exact isEnding_endingOf useCrlf
      · exact isEnding_endingOf useCrlf

theorem replace_of_notMem (noFeed : '\n' ∉ text) : Text.replace ['\r', '\n'] ['\n'] text = text := by
  rw [Text.replace]
  induction text with
  | nil => rfl
  | cons first rest ih =>
      rw [replaceFrom]
      split
      · next found =>
          rw [eq_append_of_dropStart? found] at noFeed
          simp at noFeed
      · rw [ih (List.not_mem_of_not_mem_cons noFeed)]

theorem mem_replace (feed : '\n' ∈ text) : '\n' ∈ Text.replace ['\r', '\n'] ['\n'] text := by
  rw [Text.replace]
  induction text with
  | nil => cases feed
  | cons first rest ih =>
      rw [replaceFrom]
      split
      · simp
      · rcases List.mem_cons.1 feed with here | later
        · exact List.mem_cons.2 (.inl here)
        · exact List.mem_cons_of_mem first (ih later)

/-- Whether a text has line feeds does not change when its line breaks are made alike. -/
theorem normalizeNewLines_sameShape
    (useCrlf : Bool)
    (text : Text) :
    SameShape text (normalizeNewLines useCrlf text) := by
  refine sameShape_of_cases (fun noFeed => ?_) fun first rest last has => ?_
  · rw [normalizeNewLines, replace_of_notMem noFeed]
    cases useCrlf
    · rfl
    · exact replaceChar_of_notMem noFeed
  · have feed := mem_replace has.feed
    rw [normalizeNewLines]
    cases useCrlf
    · exact feed
    · exact List.mem_flatMap.2 ⟨'\n', feed, by simp⟩

theorem onlyLineBreaks_kept (blank : text.IsWhitespace) : WhitespaceKept text (onlyLineBreaks text) := by
  obtain ⟨lines, last, has⟩ := exists_hasLines text
  obtain ⟨blankLines, blankLast⟩ := has.isWhitespace_iff.1 blank
  have hasNew := hasLines_onlyLineBreaks has
  refine ⟨hasNew.isWhitespace_iff.2 ⟨?_, isWhitespaceEnd_filter _ blankLast⟩, fun startsBreak => ?_, ?_⟩
  · exact List.forall_mem_map.2 fun line member => isWhitespaceLine_filter _ rfl (blankLines line member)
  · obtain ⟨line, rest, rfl, isBreak⟩ := has.startsBreak_iff.1 startsBreak
    refine hasNew.startsBreak_iff.2 ⟨_, _, rfl, ?_⟩
    rcases isBreak with rfl | rfl
    · exact .inl rfl
    · exact .inr rfl
  · rintro rfl
    rfl

/-!
## Runs of blank lines

Capping a run of blank lines leaves as many line feeds as there were, but at most one more than blank lines are kept.
What stands before the first line break and after the last line feed stays. The line feeds to leave are counted in a
machine word. One number of blank lines is too large for that: with it nothing is capped, and the run is over.
-/

/-- What is left of a text in which at most so many blank lines in a row are kept. -/
structure IsCapped
    (keep : Nat)
    (old new : Text) : Prop where
  /-- Every line feed, or as many as end the line before the blank lines and those that are kept. -/
  feeds : new.count '\n' = min (old.count '\n') (keep + 1)
  front : new.takeWhile (fun char => !isBreak char) = old.takeWhile fun char => !isBreak char
  back : afterLast '\n' new = afterLast '\n' old

section Capping

variable {keep : Nat} {text : Text}

theorem IsCapped.of_few (few : text.count '\n' ≤ keep + 1) : IsCapped keep text text where
  feeds := (Nat.min_eq_left few).symm
  front := rfl
  back := rfl

/-- Nothing is cut off a line that ends before its first break. -/
theorem takeWhile_ending
    (line : Text)
    {ending : Text}
    (isEnding : ending = [] ∨ ending = ['\r']) :
    (line.takeWhile (fun char => !isBreak char) ++ ending).takeWhile (fun char => !isBreak char) =
      line.takeWhile fun char => !isBreak char := by
  have inside (char : Char) (member : char ∈ line.takeWhile fun char => !isBreak char) : (!isBreak char) = true := by
    have noBreak := List.mem_takeWhile_imp member
    exact noBreak
  have atEnding : ending.takeWhile (fun char => !isBreak char) = [] := by
    rcases isEnding with rfl | rfl <;> rfl
  rw [List.takeWhile_append_of_pos inside, atEnding, List.append_nil]

/-- Keeping one line feed more than blank lines caps a text. -/
theorem isCapped_keepMaximumBreaks : IsCapped keep text (keepMaximumBreaks (keep + 1) text) := by
  by_cases few : text.count '\n' ≤ keep + 1
  · rw [keepMaximumBreaks_of_few few]
    exact .of_few few
  · obtain ⟨lines, last, has⟩ := exists_hasLines text
    have many : keep + 1 < text.count '\n' := Nat.lt_of_not_le few
    cases lines with
    | nil =>
        rw [has.count_eq] at many
        cases many
    | cons first rest =>
        have some : 0 < keep + 1 := Nat.succ_pos keep
        obtain ⟨ending, isEnding, capped⟩ := hasLines_keepMaximumBreaks some has many
        rw [Nat.add_sub_cancel] at capped
        refine ⟨?_, ?_, ?_⟩
        · rw [capped.count_eq, List.length_cons, List.length_replicate, Nat.min_eq_right (Nat.le_of_lt many)]
        · rw [capped.eq, has.eq, ofLines_cons, ofLines_cons, takeWhile_feed, takeWhile_feed, takeWhile_ending first isEnding]
        · rw [capped.afterLast_eq, has.afterLast_eq]

end Capping

/--
A text is capped exactly when one more than the blank lines to keep is a machine word. Otherwise the sum does not fit,
whatever the text, and there is none.
-/
theorem blankLines_areCapped_iff
    (keep : Nat)
    (text : Text) :
    ((exists capped, keepMaximumBlankLines keep text = .ok capped ∧ IsCapped keep text capped) ↔ keep + 1 < wordSize) ∧
      (overflows (keepMaximumBlankLines keep text) = true ↔ wordSize ≤ keep + 1) := by
  rcases Nat.lt_or_ge (keep + 1) wordSize with fits | exceeds
  · have capped : keepMaximumBlankLines keep text = .ok (keepMaximumBreaks (keep + 1) text) := by
      rw [keepMaximumBlankLines, addWords_of_fits fits]
      rfl
    refine ⟨iff_of_true ⟨_, capped, isCapped_keepMaximumBreaks⟩ fits, iff_of_false ?_ (Nat.not_le_of_lt fits)⟩
    simp [capped]
  · have stops : overflows (keepMaximumBlankLines keep text) = true := by
      have sum := overflows_addWords_iff.2 exceeds
      rw [keepMaximumBlankLines]
      rcases outcome : addWords keep 1 with error | breaks <;> rw [outcome] at sum
      · exact sum
      · cases sum
    refine ⟨iff_of_false ?_ (Nat.not_lt_of_le exceeds), iff_of_true stops exceeds⟩
    rintro ⟨capped, runs, -⟩
    rw [runs] at stops
    cases stops

/-- The largest word, meant to keep all blank lines, is one line break too many. -/
example : overflows (keepMaximumBlankLines (wordSize - 1) ['\n']) = true := by decide

end Format
end Lossless
