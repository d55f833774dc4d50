import Lossless.Proofs.Gap.Closed

/-!
# Texts by their lines

A text consists of lines with a line feed behind each of them and of a last line without one. Cutting a text at
line feeds, its last line, and what a scanner asks of whitespace and of comments can all be told from the lines.
-/

namespace Lossless
namespace Text

/-- Lines with a line feed behind each, and a last line. -/
def ofLines
    (lines : List Text)
    (last : Text) : Text :=
  lines.flatMap (fun line => line ++ ['\n']) ++ last

@[simp] theorem ofLines_nil (last : Text) : ofLines [] last = last := rfl

@[simp] theorem ofLines_cons
    (line : Text)
    (lines : List Text)
    (last : Text) :
    ofLines (line :: lines) last = line ++ '\n' :: ofLines lines last := by
  simp [ofLines]

theorem ofLines_eq_append
    (lines : List Text)
    (last : Text) :
    ofLines lines last = ofLines lines [] ++ last := by
  simp [ofLines]

/-- The text has these lines and this last line. -/
structure HasLines
    (text : Text)
    (lines : List Text)
    (last : Text) : Prop where
  eq : text = ofLines lines last
  noFeed : forall line, line ∈ lines -> '\n' ∉ line
  noFeedLast : '\n' ∉ last

theorem HasLines.cons
    {line last rest : Text}
    {lines : List Text}
    (noFeed : '\n' ∉ line)
    (others : HasLines rest lines last) :
    HasLines (line ++ '\n' :: rest) (line :: lines) last where
  eq := by rw [ofLines_cons, others.eq]
  noFeed := List.forall_mem_cons.2 ⟨noFeed, others.noFeed⟩
  noFeedLast := others.noFeedLast

theorem HasLines.single
    {last : Text}
    (noFeed : '\n' ∉ last) :
    HasLines last [] last :=
  ⟨rfl, nofun, noFeed⟩

/-- Every text has lines. -/
theorem exists_hasLines (text : Text) : exists lines last, HasLines text lines last := by
  induction text with
  | nil => exact ⟨[], [], .single (List.not_mem_nil)⟩
  | cons first rest ih =>
      obtain ⟨lines, last, has⟩ := ih
      by_cases feed : first = '\n'
      · subst feed
        exact ⟨[] :: lines, last, .cons List.not_mem_nil has⟩
      · cases lines with
        | nil =>
            refine ⟨[], first :: last, ?_⟩
            have same : rest = last := has.eq
            rw [same]
            exact .single (by simp [Ne.symm feed, has.noFeedLast])
        | cons line lines =>
            obtain ⟨eq, noFeed, noFeedLast⟩ := has
            obtain ⟨here, later⟩ := List.forall_mem_cons.1 noFeed
            refine ⟨(first :: line) :: lines, last, ?_, ?_, noFeedLast⟩
            · rw [eq]
              simp
            · exact List.forall_mem_cons.2 ⟨by simp [Ne.symm feed, here], later⟩

/-! ## Cutting -/

section Cutting

variable {text last : Text} {lines : List Text}

theorem splitAt_of_notMem
    {mark : Char}
    {line : Text}
    (absent : mark ∉ line) :
    splitAt mark line = [line] := by
  induction line with
  | nil => rfl
  | cons first rest ih =>
      rw [List.mem_cons, not_or] at absent
      rw [splitAt, if_neg (Ne.symm absent.1), ih absent.2]

theorem splitAt_append
    {mark : Char}
    {line : Text}
    (absent : mark ∉ line)
    (rest : Text) :
    splitAt mark (line ++ mark :: rest) = line :: splitAt mark rest := by
  induction line with
  | nil => simp [splitAt]
  | cons first line ih =>
      rw [List.mem_cons, not_or] at absent
      rw [List.cons_append, splitAt, if_neg (Ne.symm absent.1), ih absent.2]

/-- The pieces between line feeds are the lines. -/
theorem HasLines.splitAt_eq (has : HasLines text lines last) : splitAt '\n' text = lines ++ [last] := by
  obtain ⟨rfl, noFeed, noFeedLast⟩ := has
  induction lines with
  | nil => exact splitAt_of_notMem noFeedLast
  | cons line lines ih =>
      obtain ⟨here, later⟩ := List.forall_mem_cons.1 noFeed
      rw [ofLines_cons, splitAt_append here, ih later]
      rfl

theorem splitLast?_of_notMem
    {mark : Char}
    {line : Text}
    (absent : mark ∉ line) :
    splitLast? mark line = none := by
  induction line with
  | nil => rfl
  | cons first rest ih =>
      rw [List.mem_cons, not_or] at absent
      rw [splitLast?, ih absent.2]
      exact if_neg (Ne.symm absent.1)

theorem splitLast?_append
    {mark : Char}
    {tail : Text}
    (absent : mark ∉ tail)
    (front : Text) :
    splitLast? mark (front ++ mark :: tail) = some (front ++ [mark], tail) := by
  induction front with
  | nil => simp [splitLast?, splitLast?_of_notMem absent]
  | cons first front ih => rw [List.cons_append, splitLast?, ih]; rfl

theorem exists_eq_append_of_mem
    {mark : Char}
    {text : Text}
    (member : mark ∈ text) :
    ∃ front tail, text = front ++ mark :: tail ∧ mark ∉ tail := by
  obtain ⟨tail, front, reversed, absent⟩ := List.eq_append_cons_of_mem (List.mem_reverse.2 member)
  refine ⟨front.reverse, tail.reverse, ?_, by simpa using absent⟩
  rw [← List.reverse_reverse text, reversed]
  simp

/-- What comes before a text does not count where the text has the mark. -/
theorem afterLast_append_of_mem
    {mark : Char}
    {text : Text}
    (member : mark ∈ text)
    (front : Text) :
    afterLast mark (front ++ text) = afterLast mark text := by
  obtain ⟨before, tail, rfl, absent⟩ := exists_eq_append_of_mem member
  rw [← List.append_assoc, afterLast, splitLast?_append absent, afterLast, splitLast?_append absent]

/-- A text without the mark comes behind what is after the last one. -/
theorem afterLast_append_of_notMem
    {mark : Char}
    {tail : Text}
    (absent : mark ∉ tail)
    (front : Text) :
    afterLast mark (front ++ tail) = afterLast mark front ++ tail := by
  by_cases member : mark ∈ front
  · obtain ⟨before, rest, rfl, absentRest⟩ := exists_eq_append_of_mem member
    have absentBoth : mark ∉ rest ++ tail := by simp [absentRest, absent]
    rw [List.append_assoc, List.cons_append, afterLast, splitLast?_append absentBoth, afterLast,
      splitLast?_append absentRest]
  · have absentBoth : mark ∉ front ++ tail := by simp [member, absent]
    rw [afterLast, splitLast?_of_notMem absentBoth, afterLast, splitLast?_of_notMem member]

theorem ofLines_concat
    (lines : List Text)
    (line last : Text) :
    ofLines (lines ++ [line]) last = ofLines lines line ++ '\n' :: last := by
  simp [ofLines]

/-- The last line is what stands after the last line feed. -/
theorem HasLines.splitLast?_eq (has : HasLines text lines last) :
    splitLast? '\n' text = if lines = [] then none else some (ofLines lines [], last) := by
  obtain ⟨rfl, noFeed, noFeedLast⟩ := has
  rcases List.eq_nil_or_concat lines with rfl | ⟨front, line, rfl⟩
  · exact splitLast?_of_notMem noFeedLast
  · rw [List.concat_eq_append, ofLines_concat, splitLast?_append noFeedLast, if_neg (by simp), ofLines_concat]

theorem HasLines.afterLast_eq (has : HasLines text lines last) : afterLast '\n' text = last := by
  rw [afterLast, has.splitLast?_eq]
  split
  · next found =>
      split at found
      · cases found
      · obtain ⟨-, rfl⟩ := Prod.mk.inj (Option.some.inj found)
        rfl
  · next missing =>
      split at missing
      · next none =>
          rw [has.eq, none]
          rfl
      · cases missing

theorem HasLines.mem_iff (has : HasLines text lines last) : '\n' ∈ text ↔ lines ≠ [] := by
  obtain ⟨rfl, -, noFeedLast⟩ := has
  cases lines with
  | nil => simpa using noFeedLast
  | cons => simp

theorem HasLines.feed
    {first : Text}
    {rest : List Text}
    (has : HasLines text (first :: rest) last) :
    '\n' ∈ text :=
  has.mem_iff.2 (List.cons_ne_nil first rest)

theorem HasLines.contains_eq (has : HasLines text lines last) : text.contains '\n' = !lines.isEmpty := by
  rw [Bool.eq_iff_iff, List.contains_iff_mem, has.mem_iff]
  cases lines <;> simp

/-- There are as many lines before the last one as there are line feeds. -/
theorem HasLines.count_eq (has : HasLines text lines last) : text.count '\n' = lines.length := by
  obtain ⟨rfl, noFeed, noFeedLast⟩ := has
  induction lines with
  | nil => exact List.count_eq_zero.2 noFeedLast
  | cons line lines ih =>
      obtain ⟨here, later⟩ := List.forall_mem_cons.1 noFeed
      rw [ofLines_cons, List.count_append, List.count_cons_self, ih later, List.count_eq_zero.2 here]
      simp

theorem HasLines.isEmpty_iff (has : HasLines text lines last) : text = [] ↔ lines = [] ∧ last = [] := by
  obtain ⟨rfl, -, -⟩ := has
  cases lines <;> simp

theorem HasLines.all_iff
    (has : HasLines text lines last)
    {test : Char -> Bool}
    (feed : test '\n' = true) :
    text.all test = true ↔ (forall line, line ∈ lines -> line.all test = true) ∧ last.all test = true := by
  obtain ⟨rfl, -, -⟩ := has
  induction lines <;> simp_all [and_assoc]

end Cutting

/-! ## Changing lines -/

/-- Change every line but the first one. -/
def mapContinuations
    (change : Text -> Text)
    (text : Text) : Text :=
  match splitAt '\n' text with
  | [] => []
  | first :: rest => first ++ rest.flatMap fun line => '\n' :: change line

section Changes

variable {text last first : Text} {lines rest : List Text}

theorem flatMap_feed
    (lines : List Text)
    (last : Text) :
    ((lines ++ [last]).flatMap fun line => '\n' :: line) = '\n' :: ofLines lines last := by
  induction lines with
  | nil => simp
  | cons line lines ih => rw [List.cons_append, List.flatMap_cons, ih, ofLines_cons, List.cons_append]

theorem HasLines.mapContinuations
    {change : Text -> Text}
    (has : HasLines text (first :: rest) last)
    (noFeed : forall line, '\n' ∉ line -> '\n' ∉ change line) :
    HasLines (mapContinuations change text) (first :: rest.map change) (change last) where
  eq := by
    rw [Text.mapContinuations, has.splitAt_eq, ofLines_cons, ← flatMap_feed]
    simp [List.flatMap_map]
  noFeed := by
    obtain ⟨here, later⟩ := List.forall_mem_cons.1 has.noFeed
    refine List.forall_mem_cons.2 ⟨here, List.forall_mem_map.2 fun line member => noFeed line (later line member)⟩
  noFeedLast := noFeed last has.noFeedLast

theorem mapContinuations_of_notMem
    {change : Text -> Text}
    (noFeed : '\n' ∉ text) :
    mapContinuations change text = text := by
  rw [mapContinuations, splitAt_of_notMem noFeed]
  simp

theorem HasLines.filter
    {test : Char -> Bool}
    (has : HasLines text lines last)
    (feed : test '\n' = true) :
    HasLines (text.filter test) (lines.map (List.filter test)) (last.filter test) where
  eq := by
    rw [has.eq]
    clear has
    induction lines with
    | nil => rfl
    | cons line lines ih => simp [feed, ih]
  noFeed := List.forall_mem_map.2 fun line member inside =>
    has.noFeed line member ((List.mem_filter.1 inside).1)
  noFeedLast := fun inside => has.noFeedLast ((List.mem_filter.1 inside).1)

end Changes
/-! ## What a scanner asks -/

/-- A line whose only carriage return, if it has one, stands at its end. -/
def isPaired (line : Text) : Bool :=
  (line ++ ['\n']).hasPairedReturns

section Scanning

variable {text last : Text} {lines : List Text}

theorem hasPairedReturns_feed
    (line rest : Text) :
    (line ++ '\n' :: rest).hasPairedReturns = (line.isPaired && rest.hasPairedReturns) := by
  rw [isPaired]
  induction line with
  | nil => simp [hasPairedReturns]
  | cons first line ih =>
      have head : (line ++ '\n' :: rest).head? = (line ++ ['\n']).head? := by cases line <;> rfl
      rw [List.cons_append, List.cons_append, hasPairedReturns, hasPairedReturns, ih, head, Bool.and_assoc]

/-- What is left of a text has paired returns, when all line feeds are left. -/
theorem hasPairedReturns_filter
    {test : Char -> Bool}
    (feed : test '\n' = true)
    (paired : text.hasPairedReturns = true) :
    hasPairedReturns (text.filter test) = true := by
  induction text with
  | nil => rfl
  | cons first rest ih =>
      have others := ih (hasPairedReturns_tail paired)
      rw [List.filter_cons]
      split
      · rw [hasPairedReturns, others, Bool.and_true]
        by_cases isReturn : first = '\r'
        · rw [isReturn] at paired
          obtain ⟨tail, rfl⟩ := exists_feed_of_hasPairedReturns paired
          simp [feed]
        · simp [isReturn]
      · exact others

/-- Without line feeds, no carriage return is paired. -/
theorem hasPairedReturns_iff_of_notMem
    {line : Text}
    (noFeed : '\n' ∉ line) :
    line.hasPairedReturns = true ↔ '\r' ∉ line := by
  induction line with
  | nil => simp [hasPairedReturns]
  | cons first rest ih =>
      rw [List.mem_cons, not_or] at noFeed
      have noHead : rest.head? ≠ some '\n' := fun head => noFeed.2 (List.mem_of_head? head)
      rw [hasPairedReturns, Bool.and_eq_true, ih noFeed.2, List.mem_cons, not_or]
      simp [noHead, ne_comm]

theorem HasLines.paired_iff (has : HasLines text lines last) :
    text.hasPairedReturns = true ↔ (forall line, line ∈ lines -> line.isPaired = true) ∧ '\r' ∉ last := by
  obtain ⟨rfl, noFeed, noFeedLast⟩ := has
  induction lines with
  | nil => simpa using hasPairedReturns_iff_of_notMem noFeedLast
  | cons line lines ih =>
      rw [ofLines_cons, hasPairedReturns_feed, Bool.and_eq_true, ih (List.forall_mem_cons.1 noFeed).2,
        List.forall_mem_cons, and_assoc]

/-- A line is paired when it has no carriage return before its end. -/
theorem isPaired_iff
    {line : Text}
    (noFeed : '\n' ∉ line) :
    line.isPaired = true ↔ exists plain, '\r' ∉ plain ∧ (line = plain ∨ line = plain ++ ['\r']) := by
  unfold isPaired
  induction line with
  | nil => exact ⟨fun _ => ⟨[], List.not_mem_nil, .inl rfl⟩, fun _ => by simp [hasPairedReturns]⟩
  | cons first rest ih =>
      rw [List.mem_cons, not_or] at noFeed
      rw [List.cons_append, hasPairedReturns, Bool.and_eq_true, ih noFeed.2]
      constructor
      · rintro ⟨atFirst, plain, noReturn, shape⟩
        by_cases isReturn : first = '\r'
        · cases rest with
          | nil => exact ⟨[], List.not_mem_nil, .inr (by rw [isReturn]; rfl)⟩
          | cons second rest =>
              have head : second = '\n' := by simpa [isReturn] using atFirst
              exact absurd (List.mem_cons.2 (.inl head.symm)) noFeed.2
        · exact ⟨first :: plain, by simp [noReturn, Ne.symm isReturn], by simpa using shape⟩
      · rintro ⟨plain, noReturn, shape⟩
        cases plain with
        | nil =>
            rcases shape with none | only
            · cases none
            · obtain ⟨rfl, rfl⟩ := List.cons.inj only
              exact ⟨by simp, [], List.not_mem_nil, .inl rfl⟩
        | cons head plain =>
            rw [List.mem_cons, not_or] at noReturn
            rw [List.cons_append, List.cons.injEq, List.cons.injEq, ← and_or_left] at shape
            obtain ⟨rfl, shape⟩ := shape
            exact ⟨by simp [Ne.symm noReturn.1], plain, noReturn.2, shape⟩

theorem HasLines.startsBreak_iff (has : HasLines text lines last) :
    text.startsBreak = true ↔ exists line rest, lines = line :: rest ∧ (line = [] ∨ line = ['\r']) := by
  obtain ⟨rfl, noFeed, noFeedLast⟩ := has
  cases lines with
  | nil =>
      refine ⟨fun starts => ?_, nofun⟩
      unfold startsBreak at starts
      split at starts <;> simp_all
  | cons line lines =>
      have here := (List.forall_mem_cons.1 noFeed).1
      rw [ofLines_cons]
      match line, here with
      | [], _ => simp [startsBreak]
      | [first], here =>
          have notFeed : first ≠ '\n' := by simpa [eq_comm] using here
          by_cases isReturn : first = '\r' <;> simp [startsBreak, isReturn, notFeed]
      | first :: second :: line, here =>
          rw [List.mem_cons, List.mem_cons, not_or, not_or] at here
          refine ⟨fun starts => ?_, by simp⟩
          unfold startsBreak at starts
          split at starts
          · next found => exact absurd (List.cons.inj found).1.symm here.1
          · next found => exact absurd (List.cons.inj (List.cons.inj found).2).1.symm here.2.1
          · cases starts

theorem hasNoClosing_feed
    (line rest : Text) :
    (line ++ '\n' :: rest).hasNoClosing = (line.hasNoClosing && rest.hasNoClosing) := by
  induction line with
  | nil => simp [hasNoClosing, startsClosing]
  | cons first line ih =>
      have starts : startsClosing (first :: (line ++ '\n' :: rest)) = startsClosing (first :: line) := by
        rw [Bool.eq_iff_iff, startsClosing_iff, startsClosing_iff]
        cases line <;> simp
      rw [List.cons_append, hasNoClosing, hasNoClosing, ih, starts, Bool.and_assoc]

theorem HasLines.hasNoClosing_iff (has : HasLines text lines last) :
    text.hasNoClosing = true ↔
      (forall line, line ∈ lines -> line.hasNoClosing = true) ∧ last.hasNoClosing = true := by
  obtain ⟨rfl, -, -⟩ := has
  induction lines with
  | nil => simp
  | cons line lines ih =>
      rw [ofLines_cons, hasNoClosing_feed, Bool.and_eq_true, ih, List.forall_mem_cons, and_assoc]

end Scanning

/-!
## Line feeds behind returns

In a text with paired line feeds every line feed comes right after a carriage return, so every line but the last one
ends with one. Texts can be put together and cut again where none of them ends with a return.
-/

/-- Every line feed comes right after a carriage return; the first argument says that one comes before the text. -/
def feedsFrom : Bool -> Text -> Bool
  | _, [] => true
  | afterReturn, first :: rest => (first != '\n' || afterReturn) && feedsFrom (first == '\r') rest

/-- Every line feed comes right after a carriage return. -/
def hasPairedFeeds (text : Text) : Bool :=
  feedsFrom false text

/-- The last character is a carriage return; of no text, the first argument says what comes before it. -/
def endsFrom : Bool -> Text -> Bool
  | afterReturn, [] => afterReturn
  | _, first :: rest => endsFrom (first == '\r') rest

/-- The last character is a carriage return. -/
abbrev endsInReturn (text : Text) : Bool :=
  endsFrom false text

section Feeds

variable {text left right line last : Text} {lines : List Text}

theorem endsFrom_append
    (afterReturn : Bool)
    (left right : Text) :
    endsFrom afterReturn (left ++ right) = endsFrom (endsFrom afterReturn left) right := by
  induction left generalizing afterReturn with
  | nil => rfl
  | cons first rest ih => exact ih _

theorem feedsFrom_append
    (afterReturn : Bool)
    (left right : Text) :
    feedsFrom afterReturn (left ++ right) =
      (feedsFrom afterReturn left && feedsFrom (endsFrom afterReturn left) right) := by
  induction left generalizing afterReturn with
  | nil => rfl
  | cons first rest ih => simp [feedsFrom, endsFrom, ih, Bool.and_assoc]

/-- A return before the text does no harm. -/
theorem feedsFrom_of_false
    (paired : feedsFrom false text = true)
    (afterReturn : Bool) :
    feedsFrom afterReturn text = true := by
  cases text with
  | nil => rfl
  | cons first rest =>
      simp only [feedsFrom, Bool.or_false, Bool.and_eq_true] at paired ⊢
      exact ⟨by rw [paired.1, Bool.true_or], paired.2⟩

theorem hasPairedFeeds_append
    (pairedLeft : left.hasPairedFeeds = true)
    (pairedRight : right.hasPairedFeeds = true) :
    hasPairedFeeds (left ++ right) = true := by
  rw [hasPairedFeeds, feedsFrom_append, Bool.and_eq_true]
  exact ⟨pairedLeft, feedsFrom_of_false pairedRight _⟩

/-- Where no return stands, a text with paired line feeds can be cut. -/
theorem hasPairedFeeds_of_append
    (paired : hasPairedFeeds (left ++ right) = true)
    (closed : left.endsInReturn = false) :
    left.hasPairedFeeds = true ∧ right.hasPairedFeeds = true := by
  rw [hasPairedFeeds, feedsFrom_append, Bool.and_eq_true] at paired
  rw [show endsFrom false left = false from closed] at paired
  exact paired

theorem hasPairedFeeds_flatMap
    {α : Type}
    {write : α -> Text}
    {parts : List α}
    (each : forall part, part ∈ parts -> (write part).hasPairedFeeds = true) :
    hasPairedFeeds (parts.flatMap write) = true := by
  induction parts with
  | nil => rfl
  | cons first rest ih =>
      obtain ⟨here, later⟩ := List.forall_mem_cons.1 each
      exact hasPairedFeeds_append here (ih later)

/-- Parts that do not end with a return can be cut from one another. -/
theorem hasPairedFeeds_of_flatMap
    {α : Type}
    {write : α -> Text}
    {parts : List α}
    (paired : hasPairedFeeds (parts.flatMap write) = true)
    (closed : forall part, part ∈ parts -> (write part).endsInReturn = false) :
    forall part, part ∈ parts -> (write part).hasPairedFeeds = true := by
  induction parts with
  | nil => nofun
  | cons first rest ih =>
      obtain ⟨here, later⟩ := List.forall_mem_cons.1 closed
      obtain ⟨pairedFirst, pairedRest⟩ := hasPairedFeeds_of_append paired here
      exact List.forall_mem_cons.2 ⟨pairedFirst, ih pairedRest later⟩

/-- A text with paired returns does not end with one. -/
theorem endsInReturn_of_paired (paired : text.hasPairedReturns = true) : text.endsInReturn = false := by
  induction text with
  | nil => rfl
  | cons first rest ih =>
      cases rest with
      | nil => simpa [hasPairedReturns, endsInReturn, endsFrom] using paired
      | cons second more => exact ih (hasPairedReturns_tail paired)

theorem endsInReturn_iff : text.endsInReturn = true ↔ exists front, text = front ++ ['\r'] := by
  constructor
  · intro ends
    induction text with
    | nil => cases ends
    | cons first rest ih =>
        cases rest with
        | nil => exact ⟨[], congrArg ([·]) (beq_iff_eq.1 ends)⟩
        | cons second more =>
            obtain ⟨front, same⟩ := ih ends
            exact ⟨first :: front, congrArg (first :: ·) same⟩
  · rintro ⟨front, rfl⟩
    rw [endsInReturn, endsFrom_append]
    rfl

theorem hasPairedFeeds_of_notMem (noFeed : '\n' ∉ text) : text.hasPairedFeeds = true := by
  suffices forall afterReturn, feedsFrom afterReturn text = true from this false
  induction text with
  | nil => exact fun _ => rfl
  | cons first rest ih =>
      rw [List.mem_cons, not_or] at noFeed
      intro afterReturn
      simp [feedsFrom, ih noFeed.2, Ne.symm noFeed.1]

/-- Every line but the last one ends with a return. -/
theorem HasLines.feeds_iff (has : HasLines text lines last) :
    text.hasPairedFeeds = true ↔ forall line, line ∈ lines -> line.endsInReturn = true := by
  obtain ⟨rfl, noFeed, noFeedLast⟩ := has
  induction lines with
  | nil => simpa using hasPairedFeeds_of_notMem noFeedLast
  | cons line lines ih =>
      obtain ⟨here, later⟩ := List.forall_mem_cons.1 noFeed
      have pairedHere : feedsFrom false line = true := hasPairedFeeds_of_notMem here
      rw [ofLines_cons, hasPairedFeeds, feedsFrom_append, pairedHere, Bool.true_and, feedsFrom, Bool.and_eq_true,
        List.forall_mem_cons, ← ih later]
      simp [hasPairedFeeds]

/-- Of a nonempty text only the end counts. -/
theorem endsInReturn_append
    (front : Text)
    (nonempty : line ≠ []) :
    endsInReturn (front ++ line) = line.endsInReturn := by
  rw [endsInReturn, endsFrom_append]
  cases line with
  | nil => exact absurd rfl nonempty
  | cons first rest => rfl

end Feeds

end Text
end Lossless
