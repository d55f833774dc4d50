import Lossless.Proofs.Java.Canonical
import Lossless.Proofs.Text.Runs
import Mathlib.Algebra.Group.Nat.Even

/-!
# Reading tokens

Names, keywords, quoted literals and runs of words: when a lexer succeeds, what it has read, and that it
reads the same token before any text that does not go on with it.
-/

namespace Lossless

namespace Text

/-- A blank stands in no number. -/
theorem isNumberPart_of_isBlank
    {char : Char}
    (blank : isBlank char = true) :
    Java.isNumberPart char = false :=
  eq_false_of_isBlank (by decide) blank

end Text

namespace Space

/-- A number does not go on in the gap behind it. -/
theorem startsIn_render_numberPart
    {space : Space}
    {final : Bool}
    {rest : Text}
    (isGap : space.IsGapTo final)
    (behind : space.isEmpty = true -> rest.startsIn Java.isNumberPart = false) :
    (space.render .slash ++ rest).startsIn Java.isNumberPart = false :=
  startsIn_render Text.isNumberPart_of_isBlank (by decide) isGap.blank behind

end Space

namespace Java

open Lossless.Parser
open Java.Parser

variable {text rest name : Text}

/-! ## Names and keywords -/

theorem isName_iff :
    isName name = true ↔
      name.startsIn Text.isIdentifierStart = true ∧ name.all Text.isIdentifierPart = true := by
  cases name with
  | nil => simp [isName, Text.startsIn]
  | cons first rest =>
      simp only [isName, Text.startsIn, List.all_cons, Bool.and_eq_true]
      constructor
      · rintro ⟨starts, more⟩
        exact ⟨starts, Text.isIdentifierPart_of_isIdentifierStart starts, more⟩
      · rintro ⟨starts, -, more⟩
        exact ⟨starts, more⟩

theorem ne_nil_of_isName
    (isName : isName name = true) :
    name ≠ [] := by
  rintro rfl
  cases isName

/-- A text that starts with a name starts like one. -/
theorem startsIn_append_of_isName
    (isName : isName name = true)
    (rest : Text) :
    (name ++ rest).startsIn Text.isIdentifierStart = true := by
  exact Text.startsIn_append (isName_iff.1 isName).1 rest

theorem isIdentifierNext_eq_ok
    {found : Bool} :
    isIdentifierNext text = .ok (found, rest) ↔
      text.startsIn Text.isIdentifierStart = found ∧ text = rest := by
  unfold isIdentifierNext
  rw [bind_eq_ok]
  constructor
  · rintro ⟨saved, middle, looked, read⟩
    obtain ⟨rfl, rfl⟩ := get_eq_ok.1 looked
    cases text with
    | nil => exact pure_eq_ok.1 read
    | cons first more => exact pure_eq_ok.1 read
  · rintro ⟨rfl, rfl⟩
    refine ⟨text, text, get_eq_ok.2 ⟨rfl, rfl⟩, ?_⟩
    cases text <;> exact pure_eq_ok.2 ⟨rfl, rfl⟩

theorem identifier_eq_ok :
    identifier text = .ok (name, rest) ↔
      text = name ++ rest ∧ isName name = true ∧ rest.startsIn Text.isIdentifierPart = false := by
  unfold identifier
  rw [bind_eq_ok]
  constructor
  · rintro ⟨found, middle, looked, read⟩
    obtain ⟨starts, rfl⟩ := isIdentifierNext_eq_ok.1 looked
    cases found with
    | false => simp at read
    | true =>
        rw [if_pos rfl] at read
        obtain ⟨rfl, inside, outside⟩ := Text.takeWhile_eq_iff.1 (takeWhile_eq_ok.1 read)
        refine ⟨rfl, isName_iff.2 ⟨?_, inside⟩, outside⟩
        cases name with
        | nil =>
            rw [List.nil_append] at starts
            rw [Text.startsIn_of_startsIn Text.isIdentifierPart_of_isIdentifierStart starts] at outside
            cases outside
        | cons first more => exact starts
  · rintro ⟨rfl, isName, outside⟩
    obtain ⟨-, inside⟩ := isName_iff.1 isName
    have starts := startsIn_append_of_isName isName rest
    refine ⟨true, name ++ rest, isIdentifierNext_eq_ok.2 ⟨starts, rfl⟩, ?_⟩
    rw [if_pos rfl]
    exact takeWhile_eq_ok.2 (Text.takeWhile_eq_iff.2 ⟨rfl, inside, outside⟩)

theorem takeWhile_eq_keyword_iff
    {keyword : Text}
    (inside : keyword.all Text.isIdentifierPart = true) :
    text.takeWhile Text.isIdentifierPart = keyword ↔
      ∃ after, Text.dropStart? keyword text = some after ∧
        after.startsIn Text.isIdentifierPart = false := by
  constructor
  · intro word
    obtain ⟨whole, -, outside⟩ := Text.takeWhile_eq_iff.1 ⟨word, rfl⟩
    refine ⟨text.dropWhile Text.isIdentifierPart, ?_, outside⟩
    have found := Text.dropStart?_append keyword (text.dropWhile Text.isIdentifierPart)
    rwa [← whole] at found
  · rintro ⟨after, found, outside⟩
    rw [Text.eq_append_of_dropStart? found]
    exact Text.takeWhile_run inside outside

/-- A keyword comes next when it is the longest word at the start. -/
theorem isKeywordNext_eq_ok
    {keyword : Text}
    {found : Bool}
    (inside : keyword.all Text.isIdentifierPart = true) :
    isKeywordNext keyword text = .ok (found, rest) ↔
      (text.takeWhile Text.isIdentifierPart = keyword ↔ found = true) ∧ text = rest := by
  rw [takeWhile_eq_keyword_iff inside]
  have evaluated : isKeywordNext keyword text =
      .ok ((Text.dropStart? keyword text).any fun after => !after.startsIn Text.isIdentifierPart, text) := by
    unfold isKeywordNext
    rw [bind_get]
    rcases Text.dropStart? keyword text with _ | _ | _ <;> rfl
  rw [evaluated]
  cases Text.dropStart? keyword text with
  | none => cases found <;> simp
  | some after => cases found <;> cases more : after.startsIn Text.isIdentifierPart <;> simp [more]

/-! ## Quoted literals -/

theorem splitQuoted?_eq_some
    {quote : Char}
    {escaped : Bool}
    {body after : Text}
    (found : splitQuoted? quote escaped text = some (body, after)) :
    text = body ++ after ∧
      forall other, splitQuoted? quote escaped (body ++ other) = some (body, other) := by
  induction text generalizing escaped body with
  | nil => cases found
  | cons first more ih =>
      unfold splitQuoted? at found
      split at found
      · next isEscape =>
          obtain ⟨⟨inner, left⟩, innerFound, equal⟩ := Option.map_eq_some_iff.1 found
          obtain ⟨rfl, rfl⟩ := Prod.mk.inj equal
          obtain ⟨rfl, again⟩ := ih innerFound
          refine ⟨rfl, fun other => ?_⟩
          rw [List.cons_append, splitQuoted?, if_pos isEscape, again other]
          rfl
      · next notEscape =>
          split at found
          · cases found
          · next noBreak =>
              split at found
              · next isEnd =>
                  obtain ⟨rfl, rfl⟩ : [first] = body ∧ more = after := by simpa using found
                  refine ⟨rfl, fun other => ?_⟩
                  rw [List.singleton_append, splitQuoted?, if_neg notEscape, if_neg noBreak,
                    if_pos isEnd]
              · next notEnd =>
                  obtain ⟨⟨inner, left⟩, innerFound, equal⟩ := Option.map_eq_some_iff.1 found
                  obtain ⟨rfl, rfl⟩ := Prod.mk.inj equal
                  obtain ⟨rfl, again⟩ := ih innerFound
                  refine ⟨rfl, fun other => ?_⟩
                  rw [List.cons_append, splitQuoted?, if_neg notEscape, if_neg noBreak,
                    if_neg notEnd, again other]
                  rfl

/-!
## Where quoted literals end

A quoted literal ends at the first quote with an even number of backslashes right before it, and on the line where it
starts. The flag of the scanner is the parity of the backslashes right before the next character: a backslash turns it,
and every other character, quoted or not, puts it back.
-/

section Quoted

variable {quote first : Char} {escaped : Bool} {front inside body after : Text}

/-- The number of backslashes at the end of a text, one after the other. -/
def trailingBackslashes (text : Text) : Nat :=
  (text.reverse.takeWhile (· = '\\')).length

theorem trailingBackslashes_append_singleton (text : Text) (char : Char) :
    trailingBackslashes (text ++ [char]) = if char = '\\' then trailingBackslashes text + 1 else 0 := by
  rw [trailingBackslashes, List.reverse_append, List.reverse_singleton, List.singleton_append, List.takeWhile_cons]
  by_cases isBackslash : char = '\\'
  · simp [isBackslash, trailingBackslashes]
  · simp [isBackslash]

/-- The flag of a scanner behind a text of the literal. -/
def FlagsBehind
    (front : Text)
    (escaped : Bool) : Prop :=
  escaped = false ↔ Even (trailingBackslashes front)

theorem FlagsBehind.step
    (flags : FlagsBehind front escaped)
    (char : Char) :
    FlagsBehind (front ++ [char]) (char = '\\' && !escaped) := by
  unfold FlagsBehind at flags ⊢
  rw [trailingBackslashes_append_singleton]
  by_cases isBackslash : char = '\\'
  · rw [if_pos isBackslash, Nat.even_add_one, <- flags]
    cases escaped <;> simp [isBackslash]
  · rw [if_neg isBackslash]
    simp [isBackslash]

/-- A quote that closes a literal stands behind so much of the rest, with the text in front being read already. -/
structure ClosesBehind
    (quote : Char)
    (front rest inside : Text) : Prop where
  isNext : inside ++ [quote] <+: rest
  /-- No line feed comes before the quote. -/
  inLine : '\n' ∉ inside
  even : Even (trailingBackslashes (front ++ inside))

/-- The first of the quotes that close a literal. -/
structure ClosesFirst
    (quote : Char)
    (front rest inside : Text) : Prop where
  closes : ClosesBehind quote front rest inside
  first : forall other, ClosesBehind quote front rest other -> inside.length ≤ other.length

theorem closesBehind_cons :
    ClosesBehind quote front (first :: rest) inside ↔
      (inside = [] ∧ first = quote ∧ Even (trailingBackslashes front)) ∨
        ∃ more, inside = first :: more ∧ first ≠ '\n' ∧ ClosesBehind quote (front ++ [first]) rest more := by
  constructor
  · rintro ⟨isNext, inLine, even⟩
    cases inside with
    | nil =>
        rw [List.append_nil] at even
        exact .inl ⟨rfl, (List.cons_prefix_cons.1 isNext).1.symm, even⟩
    | cons char more =>
        obtain ⟨rfl, opensRest⟩ := List.cons_prefix_cons.1 isNext
        rw [List.append_cons] at even
        refine .inr ⟨more, rfl, (List.ne_of_not_mem_cons inLine).symm, opensRest, ?_, even⟩
        exact List.not_mem_of_not_mem_cons inLine
  · rintro (⟨rfl, rfl, even⟩ | ⟨more, rfl, noFeed, isNext, inLine, even⟩)
    · exact ⟨List.prefix_append [first] rest, List.not_mem_nil, by rwa [List.append_nil]⟩
    · exact ⟨List.cons_prefix_cons.2 ⟨rfl, isNext⟩, List.not_mem_cons_of_ne_of_not_mem noFeed.symm inLine,
        by rwa [List.append_cons]⟩

/-- Every two first quotes are the same. -/
theorem ClosesFirst.eq
    {other : Text}
    (here : ClosesFirst quote front rest inside)
    (also : ClosesFirst quote front rest other) :
    inside = other := by
  have length := Nat.le_antisymm (here.first _ also.closes) (also.first _ here.closes)
  have front := (List.prefix_append inside [quote]).trans here.closes.isNext
  have back := (List.prefix_append other [quote]).trans also.closes.isNext
  exact (List.prefix_of_prefix_length_le front back (Nat.le_of_eq length)).eq_of_length length

/-- The scanner goes from character to character. -/
theorem splitQuoted?_cons (notBackslash : quote ≠ '\\') :
    splitQuoted? quote escaped (first :: rest) =
      if first = '\n' then none
      else if first = quote && !escaped then some ([first], rest)
      else (splitQuoted? quote (first = '\\' && !escaped) rest).map fun (body, after) => (first :: body, after) := by
  rw [splitQuoted?]
  by_cases isEscape : (first = '\\' && !escaped) = true
  · have isBackslash : first = '\\' := by simpa using (Bool.and_eq_true_iff.1 isEscape).1
    rw [if_pos isEscape, isEscape, isBackslash, if_neg (by decide), if_neg (by simp [notBackslash.symm])]
  · rw [if_neg isEscape, Bool.eq_false_iff.2 isEscape]

/-- What is read as a literal ends with the first quote that closes it. -/
theorem closesFirst_of_splitQuoted?
    (notBackslash : quote ≠ '\\')
    (flags : FlagsBehind front escaped)
    (found : splitQuoted? quote escaped rest = some (body, after)) :
    ∃ inside, body = inside ++ [quote] ∧ rest = body ++ after ∧ ClosesFirst quote front rest inside := by
  induction rest generalizing front escaped body with
  | nil => cases found
  | cons first rest ih =>
      rw [splitQuoted?_cons notBackslash] at found
      split at found
      · cases found
      · next noFeed =>
          split at found
          · next isEnd =>
              obtain ⟨rfl, rfl⟩ : [first] = body ∧ rest = after := by simpa using found
              obtain ⟨rfl, rfl⟩ : first = quote ∧ escaped = false := by simpa using isEnd
              exact ⟨[], rfl, rfl, closesBehind_cons.2 (.inl ⟨rfl, rfl, flags.1 rfl⟩), fun _ _ => Nat.zero_le _⟩
          · next notEnd =>
              obtain ⟨⟨inner, left⟩, innerFound, equal⟩ := Option.map_eq_some_iff.1 found
              obtain ⟨rfl, rfl⟩ := Prod.mk.inj equal
              obtain ⟨inside, rfl, rfl, closes, least⟩ := ih (flags.step first) innerFound
              refine ⟨first :: inside, rfl, rfl, closesBehind_cons.2 (.inr ⟨inside, rfl, noFeed, closes⟩), ?_⟩
              intro other closesOther
              rcases closesBehind_cons.1 closesOther with ⟨-, rfl, even⟩ | ⟨more, rfl, -, closesMore⟩
              · exact absurd (by simp [flags.2 even]) notEnd
              · exact Nat.succ_le_succ (least more closesMore)

/-- Where nothing is read as a literal, no quote closes one. -/
theorem not_closesBehind_of_splitQuoted?
    (notBackslash : quote ≠ '\\')
    (notFeed : quote ≠ '\n')
    (flags : FlagsBehind front escaped)
    (notFound : splitQuoted? quote escaped rest = none) :
    ¬ClosesBehind quote front rest inside := by
  induction rest generalizing front escaped inside with
  | nil => exact fun closes => by simpa using closes.isNext
  | cons first rest ih =>
      intro closes
      rw [splitQuoted?_cons notBackslash] at notFound
      rcases closesBehind_cons.1 closes with ⟨-, rfl, even⟩ | ⟨more, rfl, noFeed, closesMore⟩
      · rw [if_neg notFeed, if_pos (by simp [flags.2 even])] at notFound
        cases notFound
      · rw [if_neg noFeed] at notFound
        split at notFound
        · cases notFound
        · exact ih (flags.step first) (Option.map_eq_none_iff.1 notFound) closesMore

/-- The number of bytes of the quoted literal that a text starts with, both quotes included. -/
def quotedLength? : Text -> Option Nat
  | [] => none
  | quote :: rest => (splitQuoted? quote false rest).map fun (body, _) => Text.byteLength (quote :: body)

/-- A primary expression that starts with a quote is the literal, or it is reported as unterminated. -/
def IsReadAsQuoted
    (expression : Space -> Parser Tree)
    (leading : Space)
    (text : Text) : Prop :=
  match quotedLength? text with
  | some length => ∃ source after, text = source ++ after ∧ source.byteLength = length ∧
      primary expression leading text = .ok (.spaced leading (.literal source none), after)
  | none => primary expression leading text = .error ⟨.unterminatedLiteral, text⟩

theorem isReadAsQuoted
    (isQuote : quote = '"' ∨ quote = '\'')
    (expression : Space -> Parser Tree)
    (leading : Space)
    (rest : Text) :
    IsReadAsQuoted expression leading (quote :: rest) := by
  have notBracket : ¬quote = '(' ∧ ¬quote = '[' := by rcases isQuote with rfl | rfl <;> decide
  unfold IsReadAsQuoted
  rw [primary, bind_get, quotedLength?]
  dsimp only
  rw [if_neg notBracket.1, if_neg notBracket.2, if_pos (by simpa using isQuote)]
  cases found : splitQuoted? quote false rest with
  | none => rfl
  | some parts =>
      obtain ⟨body, after⟩ := parts
      exact ⟨quote :: body, after, congrArg (quote :: ·) (splitQuoted?_eq_some found).1, rfl, rfl⟩

/--
A quoted literal is as long as up to the first quote that closes it, and there is none when no quote does. A primary
expression that starts with a quote is the literal of that length.
-/
theorem quotedLiterals_areDelimited
    (isQuote : quote = '"' ∨ quote = '\'')
    (rest : Text) :
    (forall length, quotedLength? (quote :: rest) = some length ↔
        ∃ inside, ClosesFirst quote [] rest inside ∧ length = Text.byteLength (quote :: inside ++ [quote])) ∧
      (quotedLength? (quote :: rest) = none ↔ forall inside, ¬ClosesBehind quote [] rest inside) ∧
        forall expression leading, IsReadAsQuoted expression leading (quote :: rest) := by
  have notBackslash : quote ≠ '\\' := by rcases isQuote with rfl | rfl <;> decide
  have notFeed : quote ≠ '\n' := by rcases isQuote with rfl | rfl <;> decide
  have flags : FlagsBehind [] false := iff_of_true rfl Even.zero
  refine and_assoc.1 ⟨?_, fun expression leading => isReadAsQuoted isQuote expression leading rest⟩
  cases found : splitQuoted? quote false rest with
  | none =>
      have noLength : quotedLength? (quote :: rest) = none := by rw [quotedLength?, found]; rfl
      have noClosing (inside : Text) : ¬ClosesBehind quote [] rest inside :=
        not_closesBehind_of_splitQuoted? notBackslash notFeed flags found
      refine ⟨fun length => ?_, iff_of_true noLength noClosing⟩
      rw [noLength]
      exact iff_of_false nofun fun ⟨inside, closes, _⟩ => noClosing inside closes.closes
  | some parts =>
      obtain ⟨body, after⟩ := parts
      obtain ⟨inside, rfl, whole, closes⟩ := closesFirst_of_splitQuoted? notBackslash flags found
      have isLength : quotedLength? (quote :: rest) = some (Text.byteLength (quote :: inside ++ [quote])) := by
        rw [quotedLength?, found]
        rfl
      refine ⟨fun length => ?_, ?_⟩
      · rw [isLength, Option.some_inj]
        constructor
        · rintro rfl
          exact ⟨inside, closes, rfl⟩
        · rintro ⟨other, also, rfl⟩
          rw [closes.eq also]
      · rw [isLength]
        exact iff_of_false nofun fun none => none inside closes.closes

/-- A quote behind one backslash does not close a literal, and one behind two does. -/
theorem quotedLiterals_areDelimited_backslashes :
    ('"' = '"' ∨ '"' = '\'') ∧
      ∃ inside, ClosesFirst '"' [] "é\\\"\\\\\";\"".toList inside ∧ 8 = Text.byteLength ('"' :: inside ++ ['"']) :=
  ⟨.inl rfl, ((quotedLiterals_areDelimited (.inl rfl) _).1 8).1 (by decide)⟩

end Quoted

/-! ## Runs of words -/

/-- No word goes on after the next gap. -/
def EndsWords (text : Text) : Prop :=
  text.startsIn Text.isIdentifierPart = false ∧
    ∃ run after, scanGap text = .ok (run, after) ∧ after.startsIn Text.isIdentifierStart = false

/-- Words are kept with all that stands before them. -/
theorem eq_append_of_moreWords
    {bound : Nat}
    {more : List (Text × Text)}
    (read : moreWords bound text = .ok (more, rest)) :
    text = writtenWords more ++ rest := by
  induction bound generalizing text more with
  | zero => simp [moreWords] at read
  | succ bound ih =>
      unfold moreWords at read
      simp only [bind_eq_ok, get_eq_ok, gapText_eq_ok] at read
      obtain ⟨_, _, ⟨rfl, rfl⟩, run, after, scanned, starts, _, looked, read⟩ := read
      obtain ⟨-, rfl⟩ := isIdentifierNext_eq_ok.1 looked
      cases starts with
      | false =>
          simp only [Bool.false_eq_true, if_false, bind_eq_ok, set_eq_ok, pure_eq_ok] at read
          obtain ⟨_, _, rfl, rfl, rfl⟩ := read
          rfl
      | true =>
          simp only [if_true, bind_eq_ok, pure_eq_ok] at read
          obtain ⟨word, left, readWord, others, _, readOthers, rfl, rfl⟩ := read
          obtain ⟨rfl, -, -⟩ := identifier_eq_ok.1 readWord
          obtain rfl := ih readOthers
          simpa [writtenWords] using eq_append_of_scanGap scanned

theorem moreWords_sound
    {bound : Nat}
    {more : List (Text × Text)}
    (paired : text.hasPairedReturns = true)
    (outside : text.startsIn Text.isIdentifierPart = false)
    (read : moreWords bound text = .ok (more, rest)) :
    (forall pair, pair ∈ more -> IsSpacedWord pair) ∧ EndsWords rest := by
  induction bound generalizing text more with
  | zero => simp [moreWords] at read
  | succ bound ih =>
      unfold moreWords at read
      simp only [bind_eq_ok, get_eq_ok, gapText_eq_ok] at read
      obtain ⟨_, _, ⟨rfl, rfl⟩, run, after, scanned, starts, _, looked, read⟩ := read
      obtain ⟨isStart, rfl⟩ := isIdentifierNext_eq_ok.1 looked
      cases starts with
      | false =>
          simp only [Bool.false_eq_true, if_false, bind_eq_ok, set_eq_ok, pure_eq_ok] at read
          obtain ⟨_, _, rfl, rfl, rfl⟩ := read
          exact ⟨by simp, outside, run, after, scanned, isStart⟩
      | true =>
          simp only [if_true, bind_eq_ok, pure_eq_ok] at read
          obtain ⟨word, left, readWord, others, _, readOthers, rfl, rfl⟩ := read
          obtain ⟨rfl, wordIsName, wordEnds⟩ := identifier_eq_ok.1 readWord
          obtain ⟨written, isGap⟩ := Space.format_of_scanGap paired scanned
          have whole := eq_append_of_scanGap scanned
          have leftPaired : left.hasPairedReturns = true := by
            rw [whole, ← List.append_assoc] at paired
            exact Text.hasPairedReturns_of_append paired
          obtain ⟨othersSpaced, ends⟩ := ih leftPaired wordEnds readOthers
          refine ⟨List.forall_mem_cons.2 ⟨⟨wordIsName, .format run, ?_, ?_, written⟩, othersSpaced⟩, ends⟩
          · obtain ⟨first, tail, rfl⟩ := List.exists_cons_of_ne_nil (ne_nil_of_isName wordIsName)
            exact isGap
          · refine Bool.eq_false_iff.2 fun isEmpty => ?_
            have noRun : run = [] := by
              rw [← written]
              exact (Space.render_eq_nil_iff _).2 isEmpty
            rw [whole, noRun, List.nil_append] at outside
            rw [Text.startsIn_of_startsIn Text.isIdentifierPart_of_isIdentifierStart isStart] at outside
            cases outside

/-- A run of spaced words starts with the gap before the first one. -/
theorem startsIn_writtenWords
    {more : List (Text × Text)}
    (spaced : forall pair, pair ∈ more -> IsSpacedWord pair)
    (outside : rest.startsIn Text.isIdentifierPart = false) :
    (writtenWords more ++ rest).startsIn Text.isIdentifierPart = false := by
  cases more with
  | nil => exact outside
  | cons pair others =>
      obtain ⟨run, word⟩ := pair
      obtain ⟨-, space, isGap, notEmpty, rfl⟩ := spaced (run, word) (List.mem_cons_self ..)
      have starts : (space.render .slash ++ (word ++ (writtenWords others ++ rest))).startsIn
          Text.isIdentifierPart = false :=
        Space.startsIn_render_identifierPart isGap fun isEmpty => by simp [notEmpty] at isEmpty
      simpa [writtenWords] using starts

theorem moreWords_complete
    {bound : Nat}
    {more : List (Text × Text)}
    (spaced : forall pair, pair ∈ more -> IsSpacedWord pair)
    (ends : EndsWords rest)
    (enough : (writtenWords more ++ rest).length < bound) :
    moreWords bound (writtenWords more ++ rest) = .ok (more, rest) := by
  induction more generalizing bound with
  | nil =>
      obtain ⟨outside, run, after, scanned, noStart⟩ := ends
      cases bound with
      | zero => cases enough
      | succ bound =>
          have noWord := isIdentifierNext_eq_ok.2 ⟨noStart, rfl⟩
          rw [moreWords, writtenWords, List.flatMap_nil, List.nil_append, bind_get,
            bind_of_ok (gapText_eq_ok.2 scanned), bind_of_ok noWord]
          rfl
  | cons pair others ih =>
      obtain ⟨run, word⟩ := pair
      obtain ⟨⟨wordIsName, space, isGap, notEmpty, rendered⟩, othersSpaced⟩ :=
        List.forall_mem_cons.1 spaced
      have whole : writtenWords ((run, word) :: others) ++ rest =
          run ++ (word ++ (writtenWords others ++ rest)) := by
        simp [writtenWords]
      have starts := startsIn_append_of_isName wordIsName (writtenWords others ++ rest)
      have solid := Text.isSolid_of_startsIn
        (Text.startsIn_of_startsIn Text.isIdentifierPart_of_isIdentifierStart starts)
      have scanned := scanGap_render isGap solid fun isFinal => by cases isFinal
      rw [rendered] at scanned
      rw [whole] at enough ⊢
      cases bound with
      | zero => cases enough
      | succ bound =>
          have found := isIdentifierNext_eq_ok.2 ⟨starts, rfl⟩
          have readWord := identifier_eq_ok.2
            ⟨rfl, wordIsName, startsIn_writtenWords othersSpaced ends.1⟩
          have readOthers : moreWords bound (writtenWords others ++ rest) = .ok (others, rest) :=
            ih othersSpaced <| by
              have wordLength := List.length_pos_iff.2 (ne_nil_of_isName wordIsName)
              simp only [List.length_append] at enough wordLength ⊢
              omega
          rw [moreWords, bind_get, bind_of_ok (gapText_eq_ok.2 scanned), bind_of_ok found, if_pos rfl,
            bind_of_ok readWord, bind_of_ok readOthers]
          rfl

/-- Words are a name and more words behind its end. -/
theorem words_eq_ok
    {first : Text}
    {more : List (Text × Text)} :
    words text = .ok ((first, more), rest) ↔
      ∃ middle, identifier text = .ok (first, middle) ∧ moreWords (middle.length + 1) middle = .ok (more, rest) := by
  unfold words
  simp only [bind_eq_ok, get_eq_ok, pure_eq_ok, Prod.mk.injEq]
  constructor
  · rintro ⟨_, middle, readFirst, _, _, ⟨rfl, rfl⟩, _, _, readMore, ⟨rfl, rfl⟩, rfl⟩
    exact ⟨middle, readFirst, readMore⟩
  · rintro ⟨middle, readFirst, readMore⟩
    exact ⟨first, middle, readFirst, middle, middle, ⟨rfl, rfl⟩, more, rest, readMore, ⟨rfl, rfl⟩, rfl⟩

/-- The text of words starts with the first one. -/
theorem eq_append_of_words
    {first : Text}
    {more : List (Text × Text)}
    (read : words text = .ok ((first, more), rest)) :
    text = first ++ (writtenWords more ++ rest) ∧ isName first = true ∧
      (writtenWords more ++ rest).startsIn Text.isIdentifierPart = false := by
  obtain ⟨middle, readFirst, readMore⟩ := words_eq_ok.1 read
  obtain ⟨rfl, isName, outside⟩ := identifier_eq_ok.1 readFirst
  obtain rfl := eq_append_of_moreWords readMore
  exact ⟨rfl, isName, outside⟩

/-- What is read as words is a name and spaced words behind it, up to where no word goes on. -/
theorem words_sound
    {first : Text}
    {more : List (Text × Text)}
    (paired : text.hasPairedReturns = true)
    (read : words text = .ok ((first, more), rest)) :
    text = first ++ (writtenWords more ++ rest) ∧ isName first = true ∧
      (forall pair, pair ∈ more -> IsSpacedWord pair) ∧ EndsWords rest := by
  obtain ⟨whole, isName, -⟩ := eq_append_of_words read
  obtain ⟨middle, readFirst, readMore⟩ := words_eq_ok.1 read
  obtain ⟨rfl, -, outside⟩ := identifier_eq_ok.1 readFirst
  obtain ⟨spaced, ends⟩ := moreWords_sound (Text.hasPairedReturns_of_append paired) outside readMore
  exact ⟨whole, isName, spaced, ends⟩

/-- A name and spaced words behind it are read back where no word goes on. -/
theorem words_complete
    {first : Text}
    {more : List (Text × Text)}
    (isName : isName first = true)
    (spaced : forall pair, pair ∈ more -> IsSpacedWord pair)
    (ends : EndsWords rest) :
    words (first ++ (writtenWords more ++ rest)) = .ok ((first, more), rest) := by
  have readFirst := identifier_eq_ok.2 ⟨rfl, isName, startsIn_writtenWords spaced ends.1⟩
  have readMore := moreWords_complete spaced ends (Nat.lt_succ_self _)
  rw [words, bind_of_ok readFirst, bind_get, bind_of_ok readMore]
  rfl

end Java
end Lossless
