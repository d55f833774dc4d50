import Lossless.Proofs.Format.Whitespace

/-!
# What the passes make of comments

The passes leave line comments alone. In a block comment they move the lines after the first one, and they make
its line breaks alike; what is left to compare are the lines without blanks at their starts.
-/

namespace Lossless
namespace Format

open Text

/-- What is no return. -/
def isNoReturn (char : Char) : Bool :=
  char != '\r'

/-- The lines of a block comment without returns, and without the blanks at the starts of all but the first one. -/
def bodyLines (text : Text) : List Text :=
  match Text.splitAt '\n' (text.filter isNoReturn) with
  | [] => []
  | first :: rest => first :: rest.map (List.dropWhile isIndent)

/-- A text that can stand in a block comment. -/
structure IsBody (text : Text) : Prop where
  paired : text.hasPairedReturns = true
  noClosing : text.hasNoClosing = true

/-- Lines that differ in their indentation. -/
def SameBehindIndent (old new : Text) : Prop :=
  exists front frontNew common, front.all isIndent = true ∧ frontNew.all isIndent = true ∧
    old = front ++ common ∧ new = frontNew ++ common

section Lines

variable {text last first old new : Text} {lines rest : List Text}

theorem dropIndent_suffix
    (count : Nat)
    (line : Text) :
    exists front, front.all isIndent = true ∧ line = front ++ dropIndent count line := by
  induction count generalizing line with
  | zero => exact ⟨[], rfl, by cases line <;> rfl⟩
  | succ count ih =>
      cases line with
      | nil => exact ⟨[], rfl, rfl⟩
      | cons first rest =>
          rw [dropIndent]
          split
          · next indents =>
              obtain ⟨front, allIndent, same⟩ := ih rest
              exact ⟨first :: front, by simp [isIndent, indents, allIndent], congrArg (first :: ·) same⟩
          · exact ⟨[], rfl, rfl⟩

/-- A moved line differs in its indentation. -/
theorem sameBehindIndent_shiftCommentLine
    (source target : Nat)
    (line : Text) :
    SameBehindIndent line (shiftCommentLine source target line) := by
  unfold shiftCommentLine
  split
  · split
    · exact ⟨[], [], line, rfl, rfl, rfl, rfl⟩
    · exact ⟨[], _, line, rfl, List.all_eq_true.2 fun char member => by rw [List.eq_of_mem_replicate member]; rfl, rfl, rfl⟩
  · obtain ⟨front, allIndent, same⟩ := dropIndent_suffix (source - target) line
    exact ⟨front, [], _, allIndent, rfl, same, rfl⟩

theorem sameBehindIndent_retabLine
    (style : IndentStyle)
    (line : Text) :
    SameBehindIndent line (Exact.retabLine style line) :=
  ⟨line.takeWhile isIndent, _, line.dropWhile isIndent, List.all_eq_true.2 fun _ member => List.mem_takeWhile_imp member,
    List.all_eq_true.2 fun _ member => isIndent_of_mem_indentString member, List.takeWhile_append_dropWhile.symm, rfl⟩

theorem notMem_of_allIndent
    {front : Text}
    {char : Char}
    (allIndent : front.all isIndent = true)
    (solid : isIndent char = false) :
    char ∉ front := by
  intro member
  rw [List.all_eq_true.1 allIndent char member] at solid
  cases solid

theorem hasNoClosing_append
    {front : Text}
    (allIndent : front.all isIndent = true)
    (line : Text) :
    hasNoClosing (front ++ line) = line.hasNoClosing := by
  induction front with
  | nil => rfl
  | cons first front ih =>
      rw [List.all_cons, Bool.and_eq_true] at allIndent
      have inside : startsClosing (first :: (front ++ line)) = false := by
        refine startsClosing_eq_false fun body isStar _ => ?_
        rw [isStar] at allIndent
        cases allIndent.1
      rw [List.cons_append, hasNoClosing, inside, ih allIndent.2]
      rfl

namespace SameBehindIndent

theorem notMem
    (same : SameBehindIndent old new)
    {char : Char}
    (solid : isIndent char = false)
    (absent : char ∉ old) :
    char ∉ new := by
  obtain ⟨front, frontNew, common, allIndent, allIndentNew, rfl, rfl⟩ := same
  rw [List.mem_append, not_or] at absent ⊢
  exact ⟨notMem_of_allIndent allIndentNew solid, absent.2⟩

theorem isPaired
    (same : SameBehindIndent old new)
    (paired : Text.isPaired old = true) :
    Text.isPaired new = true := by
  obtain ⟨front, frontNew, common, allIndent, allIndentNew, rfl, rfl⟩ := same
  rw [isPaired_append (notMem_of_allIndent allIndentNew rfl)]
  exact isPaired_of_append paired

theorem hasNoClosing
    (same : SameBehindIndent old new)
    (inside : Text.hasNoClosing old = true) :
    Text.hasNoClosing new = true := by
  obtain ⟨front, frontNew, common, allIndent, allIndentNew, rfl, rfl⟩ := same
  rw [hasNoClosing_append allIndentNew]
  rwa [hasNoClosing_append allIndent] at inside

theorem dropWhile_eq (same : SameBehindIndent old new) :
    (new.filter isNoReturn).dropWhile isIndent = (old.filter isNoReturn).dropWhile isIndent := by
  obtain ⟨front, frontNew, common, allIndent, allIndentNew, rfl, rfl⟩ := same
  have drop {front : Text} (allIndent : front.all isIndent = true) :
      ((front ++ common).filter isNoReturn).dropWhile isIndent = (common.filter isNoReturn).dropWhile isIndent := by
    rw [List.filter_append]
    refine List.dropWhile_append_of_pos fun char member => ?_
    exact List.all_eq_true.1 allIndent char (List.mem_filter.1 member).1
  rw [drop allIndent, drop allIndentNew]

end SameBehindIndent

theorem bodyLines_of_hasLines (has : HasLines text (first :: rest) last) :
    bodyLines text = first.filter isNoReturn ::
      (rest ++ [last]).map fun line => (line.filter isNoReturn).dropWhile isIndent := by
  have filtered : HasLines (text.filter isNoReturn) _ _ := has.filter rfl
  rw [bodyLines, filtered.splitAt_eq]
  simp

/-! ## Moved lines -/

section Moved

variable (source target : Nat)

theorem shiftCommentBody_eq
    (text : Text) :
    shiftCommentBody source target text = text ∨
      shiftCommentBody source target text = mapContinuations (shiftCommentLine source target) text := by
  unfold shiftCommentBody
  split
  · exact .inl rfl
  · exact .inr rfl

theorem hasLines_moved (has : HasLines text (first :: rest) last) :
    HasLines (mapContinuations (shiftCommentLine source target) text)
      (first :: rest.map (shiftCommentLine source target)) (shiftCommentLine source target last) :=
  has.mapContinuations fun line absent => (sameBehindIndent_shiftCommentLine source target line).notMem rfl absent

/-- Moving the lines of a block comment leaves it one. -/
theorem shiftCommentBody_isBody (isBody : IsBody text) : IsBody (shiftCommentBody source target text) := by
  rcases shiftCommentBody_eq source target text with same | moved
  · rwa [same]
  rw [moved]
  have moved := sameBehindIndent_shiftCommentLine source target
  obtain ⟨lines, last, has⟩ := exists_hasLines text
  cases lines with
  | nil => rwa [mapContinuations_of_notMem fun feed => has.mem_iff.1 feed rfl]
  | cons first rest =>
      have hasNew := hasLines_moved source target has
      obtain ⟨pairedLines, noReturn⟩ := has.paired_iff.1 isBody.paired
      obtain ⟨insideLines, insideLast⟩ := has.hasNoClosing_iff.1 isBody.noClosing
      obtain ⟨pairedFirst, pairedRest⟩ := List.forall_mem_cons.1 pairedLines
      obtain ⟨insideFirst, insideRest⟩ := List.forall_mem_cons.1 insideLines
      refine ⟨hasNew.paired_iff.2 ⟨?_, (moved last).notMem rfl noReturn⟩,
        hasNew.hasNoClosing_iff.2 ⟨?_, (moved last).hasNoClosing insideLast⟩⟩
      · exact List.forall_mem_cons.2 ⟨pairedFirst, List.forall_mem_map.2 fun line member =>
          (moved line).isPaired (pairedRest line member)⟩
      · exact List.forall_mem_cons.2 ⟨insideFirst, List.forall_mem_map.2 fun line member =>
          (moved line).hasNoClosing (insideRest line member)⟩

/-- Moving the lines of a block comment changes the blanks at their starts alone. -/
theorem bodyLines_shiftCommentBody (text : Text) :
    bodyLines (shiftCommentBody source target text) = bodyLines text := by
  rcases shiftCommentBody_eq source target text with same | moved
  · rw [same]
  rw [moved]
  have moved := sameBehindIndent_shiftCommentLine source target
  obtain ⟨lines, last, has⟩ := exists_hasLines text
  cases lines with
  | nil => rw [mapContinuations_of_notMem fun feed => has.mem_iff.1 feed rfl]
  | cons first rest =>
      rw [bodyLines_of_hasLines has, bodyLines_of_hasLines (hasLines_moved source target has)]
      simp [(moved _).dropWhile_eq]

end Moved

/-! ## Line breaks made alike -/

/-- A text with or without a return at its end. -/
def IsEndedLine (plain line : Text) : Prop :=
  line = plain ∨ line = plain ++ ['\r']

theorem hasNoClosing_of_isEndedLine
    {plain line : Text}
    (ended : IsEndedLine plain line) :
    hasNoClosing line = plain.hasNoClosing := by
  rcases ended with rfl | rfl
  · rfl
  · induction plain with
    | nil => rfl
    | cons first plain ih =>
        have starts : startsClosing (first :: (plain ++ ['\r'])) = startsClosing (first :: plain) := by
          rw [Bool.eq_iff_iff, startsClosing_iff, startsClosing_iff]
          cases plain <;> simp
        rw [List.cons_append, hasNoClosing, hasNoClosing, starts, ih]

theorem filter_of_isEndedLine
    {plain line : Text}
    (noReturn : '\r' ∉ plain)
    (ended : IsEndedLine plain line) :
    line.filter (fun char => char != '\r') = plain := by
  have all : plain.filter (fun char => char != '\r') = plain :=
    List.filter_eq_self.2 fun char member => bne_iff_ne.2 fun isReturn => noReturn (isReturn ▸ member)
  rcases ended with rfl | rfl
  · exact all
  · rw [List.filter_append, all]
    simp

/-- A line whose end is made like the others. -/
theorem exists_normalizedLine
    (useCrlf : Bool)
    {line : Text}
    (noFeed : '\n' ∉ line)
    (paired : Text.isPaired line = true) :
    exists plain, '\r' ∉ plain ∧ IsEndedLine plain line ∧
      IsEndedLine plain (line.filter (fun char => char != '\r') ++ endingOf useCrlf) := by
  obtain ⟨plain, noReturn, ended⟩ := (isPaired_iff noFeed).1 paired
  refine ⟨plain, noReturn, ended, ?_⟩
  rw [filter_of_isEndedLine noReturn ended]
  cases useCrlf
  · exact .inl (List.append_nil plain)
  · exact .inr rfl

/-- Making the line breaks of a block comment alike leaves it one. -/
theorem normalizeNewLines_isBody
    (useCrlf : Bool)
    (isBody : IsBody text) :
    IsBody (normalizeNewLines useCrlf text) := by
  obtain ⟨lines, last, has⟩ := exists_hasLines text
  have hasNew := hasLines_normalizeNewLines useCrlf isBody.paired has
  obtain ⟨pairedLines, noReturn⟩ := has.paired_iff.1 isBody.paired
  obtain ⟨insideLines, insideLast⟩ := has.hasNoClosing_iff.1 isBody.noClosing
  have alike (line : Text) (member : line ∈ lines) :=
    exists_normalizedLine useCrlf (has.noFeed line member) (pairedLines line member)
  refine ⟨hasNew.paired_iff.2 ⟨List.forall_mem_map.2 fun line member => ?_, noReturn⟩,
    hasNew.hasNoClosing_iff.2 ⟨List.forall_mem_map.2 fun line member => ?_, insideLast⟩⟩
  · obtain ⟨plain, noReturn, -, ended⟩ := alike line member
    exact (isPaired_iff (hasNew.noFeed _ (List.mem_map_of_mem member))).2 ⟨plain, noReturn, ended⟩
  · obtain ⟨plain, -, ended, endedNew⟩ := alike line member
    rw [hasNoClosing_of_isEndedLine endedNew, ← hasNoClosing_of_isEndedLine ended]
    exact insideLines line member

theorem filter_replace (text : Text) :
    (Text.replace ['\r', '\n'] ['\n'] text).filter isNoReturn = text.filter isNoReturn := by
  rw [Text.replace]
  induction text using List.twoStepInduction with
  | nil => rfl
  | singleton first => simp [replaceFrom, dropStart?]
  | cons_cons first second rest skipped ih =>
      by_cases isBreak : first = '\r' ∧ second = '\n'
      · obtain ⟨rfl, rfl⟩ := isBreak
        have others := congrArg ('\n' :: ·) skipped
        simpa [replaceFrom, dropStart?, isNoReturn, List.filter_cons] using others
      · have others := ih second
        rw [replaceFrom]
        split
        · next found =>
            have same := eq_append_of_dropStart? found
            simp only [List.cons_append, List.nil_append, List.cons.injEq] at same
            exact absurd ⟨same.1, same.2.1⟩ isBreak
        · rw [List.filter_cons, List.filter_cons, others]

theorem filter_replaceChar (text : Text) :
    (Text.replaceChar '\n' ['\r', '\n'] text).filter isNoReturn = text.filter isNoReturn := by
  rw [Text.replaceChar]
  induction text with
  | nil => rfl
  | cons first rest ih =>
      rw [List.flatMap_cons, List.filter_append, ih]
      by_cases isFeed : first = '\n'
      · rw [if_pos isFeed, isFeed]
        rfl
      · rw [if_neg isFeed, ← List.filter_append]
        rfl

/-- Making line breaks alike changes returns alone. -/
theorem filter_normalizeNewLines
    (useCrlf : Bool)
    (text : Text) :
    (normalizeNewLines useCrlf text).filter isNoReturn = text.filter isNoReturn := by
  rw [normalizeNewLines]
  cases useCrlf with
  | false => exact filter_replace text
  | true =>
      rw [if_pos rfl, filter_replaceChar]
      exact filter_replace text

theorem bodyLines_normalizeNewLines
    (useCrlf : Bool)
    (text : Text) :
    bodyLines (normalizeNewLines useCrlf text) = bodyLines text := by
  rw [bodyLines, bodyLines, filter_normalizeNewLines]

end Lines

end Format
end Lossless
