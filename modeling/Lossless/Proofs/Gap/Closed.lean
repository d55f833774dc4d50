import Lossless.Parse

/-!
# Gaps that are skipped

What the scanner of gaps skips, and the gaps that it skips as a whole whatever comes after them.
-/

namespace Lossless

/-!
## Comments that a scanner passes over

`scanGap` tells how far a run of blanks and comments reaches, and throws the comments away.
`skippedInGap` walks the same way and keeps them: a line comment holds everything up to the line feed, a
block comment everything up to the first closing delimiter.

A text has paired returns when its line breaks are `\n` and `\r\n`. In such a text a line comment that is
passed over holds at most one carriage return, the one of the line break after it.
-/

namespace Text

/-- Every carriage return is followed by a line feed. -/
def hasPairedReturns : Text -> Bool
  | [] => true
  | first :: rest => (first != '\r' || rest.head? == some '\n') && hasPairedReturns rest

theorem hasPairedReturns_tail
    {first : Char}
    {rest : Text}
    (paired : hasPairedReturns (first :: rest) = true) :
    hasPairedReturns rest = true := by
  rw [hasPairedReturns, Bool.and_eq_true] at paired
  exact paired.2

theorem hasPairedReturns_of_append
    {left right : Text}
    (paired : hasPairedReturns (left ++ right) = true) :
    hasPairedReturns right = true := by
  induction left with
  | nil => exact paired
  | cons first rest ih => exact ih (hasPairedReturns_tail paired)

/-- A break of a line is not torn apart where no line feed follows. -/
theorem hasPairedReturns_left
    {left right : Text}
    (paired : hasPairedReturns (left ++ right) = true)
    (noFeed : right.head? ≠ some '\n') :
    hasPairedReturns left = true := by
  induction left with
  | nil => rfl
  | cons first rest ih =>
      rw [List.cons_append, hasPairedReturns, Bool.and_eq_true] at paired
      rw [hasPairedReturns, Bool.and_eq_true]
      refine ⟨?_, ih paired.2⟩
      cases rest with
      | nil => simpa [noFeed] using paired.1
      | cons next more => exact paired.1

theorem exists_feed_of_hasPairedReturns
    {rest : Text}
    (paired : hasPairedReturns ('\r' :: rest) = true) :
    ∃ tail, rest = '\n' :: tail := by
  rw [hasPairedReturns, Bool.and_eq_true] at paired
  have next : rest.head? = some '\n' := by simpa using paired.1
  exact List.head?_eq_some_iff.1 next

/-- The text without the carriage return at its end, if there is one. -/
def withoutFinalReturn : Text -> Text
  | [] => []
  | first :: rest =>
      if first = '\r' && rest.isEmpty then [] else first :: withoutFinalReturn rest

@[simp] theorem withoutFinalReturn_nil : withoutFinalReturn [] = [] := rfl

theorem withoutFinalReturn_cons
    {first : Char}
    (other : first ≠ '\r')
    (rest : Text) :
    withoutFinalReturn (first :: rest) = first :: withoutFinalReturn rest := by
  simp [withoutFinalReturn, other]

/-- A carriage return that is not the last character stays. -/
theorem eq_nil_of_return_notMem
    {rest : Text}
    (absent : '\r' ∉ withoutFinalReturn ('\r' :: rest)) :
    rest = [] := by
  cases rest with
  | nil => rfl
  | cons next rest => simp [withoutFinalReturn] at absent

end Text

/-- A comment as a scanner passes over it: what stands between its delimiters. -/
structure SkippedComment where
  isBlock : Bool
  text : Text
  deriving DecidableEq

namespace SkippedComment

/-- The comment without the carriage return of the line break that ends it. -/
def trimmed (comment : SkippedComment) : SkippedComment :=
  if comment.isBlock then comment
  else { comment with text := comment.text.withoutFinalReturn }

/-- A line comment has no carriage return but for the one that ends its line. -/
def endsAtReturn (comment : SkippedComment) : Prop :=
  comment.isBlock = false -> '\r' ∉ comment.trimmed.text

end SkippedComment

mutual

/-- The comments of the run of blanks and comments at the start of a text. -/
def skippedInGap : Text -> List SkippedComment
  | [] => []
  | first :: rest =>
      match first, rest with
      | '/', '/' :: body =>
          let (text, more) := skippedInLine body
          ⟨false, text⟩ :: more
      | '/', '*' :: body =>
          let (text, more) := skippedInBlock body
          ⟨true, text⟩ :: more
      | first, rest => if Text.isBlank first then skippedInGap rest else []

/-- The text of the line comment that a text is inside of, and the comments after it. -/
def skippedInLine : Text -> Text × List SkippedComment
  | [] => ([], [])
  | first :: rest =>
      if first = '\n' then ([], skippedInGap rest)
      else
        let (text, more) := skippedInLine rest
        (first :: text, more)

/-- The text of the block comment that a text is inside of, and the comments after it. -/
def skippedInBlock : Text -> Text × List SkippedComment
  | [] => ([], [])
  | first :: rest =>
      match first, rest with
      | '*', '/' :: outside => ([], skippedInGap outside)
      | first, rest =>
          let (text, more) := skippedInBlock rest
          (first :: text, more)

end

/-! ### Where comments start and end -/

namespace Text

/-- A comment starts here. -/
def startsComment : Text -> Bool
  | '/' :: '/' :: _ => true
  | '/' :: '*' :: _ => true
  | _ => false

/-- A text that neither a blank nor a comment starts. -/
def isSolid : Text -> Bool
  | [] => true
  | first :: rest => !isBlank first && !startsComment (first :: rest)

@[simp] theorem isSolid_nil : isSolid [] = true := rfl

/-- A block comment ends here. -/
def startsClosing : Text -> Bool
  | '*' :: '/' :: _ => true
  | _ => false

theorem startsClosing_iff
    {first : Char}
    {rest : Text} :
    startsClosing (first :: rest) = true ↔ ∃ tail, first = '*' ∧ rest = '/' :: tail := by
  unfold startsClosing
  split
  · next equal => simp_all
  · next noClose =>
      simp only [Bool.false_eq_true, false_iff]
      rintro ⟨tail, rfl, rfl⟩
      exact noClose tail rfl

theorem startsComment_eq_false
    {first : Char}
    {rest : Text}
    (noLine : forall body, first = '/' -> rest = '/' :: body -> False)
    (noBlock : forall body, first = '/' -> rest = '*' :: body -> False) :
    startsComment (first :: rest) = false := by
  unfold startsComment
  split
  · next equal => exact (noLine _ (List.cons.inj equal).1 (List.cons.inj equal).2).elim
  · next equal => exact (noBlock _ (List.cons.inj equal).1 (List.cons.inj equal).2).elim
  · rfl

theorem startsClosing_eq_false
    {first : Char}
    {rest : Text}
    (noClose : forall body, first = '*' -> rest = '/' :: body -> False) :
    startsClosing (first :: rest) = false := by
  unfold startsClosing
  split
  · next equal => exact (noClose _ (List.cons.inj equal).1 (List.cons.inj equal).2).elim
  · rfl

/-- A blank starts no comment. -/
theorem startsComment_of_isBlank
    {first : Char}
    (blank : isBlank first = true)
    (rest : Text) :
    startsComment (first :: rest) = false := by
  have other : first ≠ '/' := by
    rintro rfl
    revert blank
    decide
  unfold startsComment
  split <;> simp_all

end Text

/--
Induction along a scan: outside comments, inside a line comment and inside a block comment. Outside
comments a scan goes on only after a blank.
-/
theorem gap_induction
    {outside inLine inBlock : Text -> Prop}
    (atEnd : outside [])
    (lineOpens : forall body, inLine body -> outside ('/' :: '/' :: body))
    (blockOpens : forall body, inBlock body -> outside ('/' :: '*' :: body))
    (step : forall first rest, Text.startsComment (first :: rest) = false ->
      (Text.isBlank first = true -> outside rest) -> outside (first :: rest))
    (lineAtEnd : inLine [])
    (lineBreaks : forall rest, outside rest -> inLine ('\n' :: rest))
    (lineStep : forall first rest, first ≠ '\n' -> inLine rest -> inLine (first :: rest))
    (blockAtEnd : inBlock [])
    (blockCloses : forall rest, outside rest -> inBlock ('*' :: '/' :: rest))
    (blockStep : forall first rest, Text.startsClosing (first :: rest) = false ->
      inBlock rest -> inBlock (first :: rest)) :
    (forall text, outside text) ∧ (forall text, inLine text) ∧ forall text, inBlock text := by
  have all := scanGap.mutual_induct outside (fun _ => inBlock) inLine atEnd lineOpens blockOpens
    (fun first rest noLine noBlock _ tail =>
      step first rest (Text.startsComment_eq_false noLine noBlock) fun _ => tail)
    (fun first rest noLine noBlock solid =>
      step first rest (Text.startsComment_eq_false noLine noBlock) fun blank => absurd blank solid)
    (fun _ => blockAtEnd) (fun _ => blockCloses)
    (fun _ first rest noClose => blockStep first rest (Text.startsClosing_eq_false noClose))
    lineAtEnd lineBreaks lineStep
  exact ⟨all.1, all.2.2, fun text => all.2.1 [] text⟩

/-! ### One step of the scanner -/

section Steps

variable {first : Char} {text rest run after opened : Text}

/-- A step that puts characters before the run of another step. -/
theorem mapRun_eq_ok
    (scan : Except Text (Text × Text))
    (change : Text -> Text) :
    (do
      let (run, after) <- scan
      return (change run, after)) = .ok (run, after) ↔
        ∃ inner, scan = .ok (inner, after) ∧ run = change inner := by
  cases scan with
  | error opened => simp [bind, Except.bind]
  | ok parts =>
      obtain ⟨inner, left⟩ := parts
      constructor
      · rintro ⟨⟩
        exact ⟨inner, rfl, rfl⟩
      · rintro ⟨_, ⟨⟩, rfl⟩
        rfl

@[simp] theorem scanGap_nil : scanGap [] = .ok ([], []) := rfl

@[simp] theorem scanLine_nil : scanLine [] = .ok ([], []) := rfl

@[simp] theorem scanBlock_nil : scanBlock opened [] = .error opened := rfl

theorem scanGap_line_eq_ok :
    scanGap ('/' :: '/' :: text) = .ok (run, after) ↔
      ∃ body, scanLine text = .ok (body, after) ∧ run = '/' :: '/' :: body := by
  exact mapRun_eq_ok (scanLine text) fun run => '/' :: '/' :: run

theorem scanGap_block_eq_ok :
    scanGap ('/' :: '*' :: text) = .ok (run, after) ↔
      ∃ body, scanBlock ('/' :: '*' :: text) text = .ok (body, after) ∧
        run = '/' :: '*' :: body := by
  exact mapRun_eq_ok (scanBlock ('/' :: '*' :: text) text) fun run => '/' :: '*' :: run

theorem scanGap_of_isBlank
    (blank : Text.isBlank first = true) :
    scanGap (first :: rest) = .ok (run, after) ↔
      ∃ inner, scanGap rest = .ok (inner, after) ∧ run = first :: inner := by
  have plain := Text.startsComment_of_isBlank blank rest
  conv => lhs; unfold scanGap
  split
  · simp [Text.startsComment] at plain
  · simp [Text.startsComment] at plain
  · rw [if_pos blank]
    exact mapRun_eq_ok (scanGap rest) fun run => first :: run

theorem scanGap_of_solid
    (plain : Text.startsComment (first :: rest) = false)
    (solid : Text.isBlank first = false) :
    scanGap (first :: rest) = .ok ([], first :: rest) := by
  unfold scanGap
  split
  · simp [Text.startsComment] at plain
  · simp [Text.startsComment] at plain
  · simp [solid]

theorem scanLine_break_eq_ok :
    scanLine ('\n' :: rest) = .ok (run, after) ↔
      ∃ inner, scanGap rest = .ok (inner, after) ∧ run = '\n' :: inner := by
  exact mapRun_eq_ok (scanGap rest) fun run => '\n' :: run

theorem scanLine_eq_ok
    (other : first ≠ '\n') :
    scanLine (first :: rest) = .ok (run, after) ↔
      ∃ inner, scanLine rest = .ok (inner, after) ∧ run = first :: inner := by
  rw [scanLine, if_neg other]
  exact mapRun_eq_ok (scanLine rest) fun run => first :: run

theorem scanBlock_close_eq_ok :
    scanBlock opened ('*' :: '/' :: rest) = .ok (run, after) ↔
      ∃ inner, scanGap rest = .ok (inner, after) ∧ run = '*' :: '/' :: inner := by
  exact mapRun_eq_ok (scanGap rest) fun run => '*' :: '/' :: run

theorem scanBlock_eq_ok
    (inside : Text.startsClosing (first :: rest) = false) :
    scanBlock opened (first :: rest) = .ok (run, after) ↔
      ∃ inner, scanBlock opened rest = .ok (inner, after) ∧ run = first :: inner := by
  conv => lhs; unfold scanBlock
  split
  · simp [Text.startsClosing] at inside
  · exact mapRun_eq_ok (scanBlock opened rest) fun run => first :: run

/-! ### One step of keeping the comments -/

@[simp] theorem skippedInGap_nil : skippedInGap [] = [] := rfl

@[simp] theorem skippedInLine_nil : skippedInLine [] = ([], []) := rfl

@[simp] theorem skippedInBlock_nil : skippedInBlock [] = ([], []) := rfl

@[simp] theorem skippedInGap_line :
    skippedInGap ('/' :: '/' :: text) =
      ⟨false, (skippedInLine text).1⟩ :: (skippedInLine text).2 := rfl

@[simp] theorem skippedInGap_block :
    skippedInGap ('/' :: '*' :: text) =
      ⟨true, (skippedInBlock text).1⟩ :: (skippedInBlock text).2 := rfl

theorem skippedInGap_of_isBlank
    (blank : Text.isBlank first = true) :
    skippedInGap (first :: rest) = skippedInGap rest := by
  have plain := Text.startsComment_of_isBlank blank rest
  conv => lhs; unfold skippedInGap
  split
  · simp [Text.startsComment] at plain
  · simp [Text.startsComment] at plain
  · rw [if_pos blank]

theorem skippedInGap_of_solid
    (plain : Text.startsComment (first :: rest) = false)
    (solid : Text.isBlank first = false) :
    skippedInGap (first :: rest) = [] := by
  unfold skippedInGap
  split
  · simp [Text.startsComment] at plain
  · simp [Text.startsComment] at plain
  · simp [solid]

@[simp] theorem skippedInLine_break :
    skippedInLine ('\n' :: rest) = ([], skippedInGap rest) := rfl

theorem skippedInLine_cons
    (other : first ≠ '\n') :
    skippedInLine (first :: rest) =
      (first :: (skippedInLine rest).1, (skippedInLine rest).2) := by
  rw [skippedInLine, if_neg other]

@[simp] theorem skippedInBlock_close :
    skippedInBlock ('*' :: '/' :: rest) = ([], skippedInGap rest) := rfl

theorem skippedInBlock_cons
    (inside : Text.startsClosing (first :: rest) = false) :
    skippedInBlock (first :: rest) =
      (first :: (skippedInBlock rest).1, (skippedInBlock rest).2) := by
  conv => lhs; unfold skippedInBlock
  split
  · simp [Text.startsClosing] at inside
  · rfl

end Steps

/-! ### What is scanned is a prefix -/

/-- A scan has read a prefix of a text up to where no blank and no comment goes on. -/
def Text.ReadsGap (text run after : Text) : Prop :=
  text = run ++ after ∧ after.isSolid = true

namespace Text.ReadsGap

variable {text run after : Text}

/-- What is read in front of a prefix. -/
theorem append
    (reads : text.ReadsGap run after)
    (front : Text) :
    ReadsGap (front ++ text) (front ++ run) after := by
  refine ⟨?_, reads.2⟩
  rw [reads.1, List.append_assoc]

theorem nil : ReadsGap [] [] [] := ⟨rfl, rfl⟩

end Text.ReadsGap

section Prefix

variable {text run after opened : Text}

theorem readsGap_of_scan :
    (forall text, forall run after, scanGap text = .ok (run, after) -> text.ReadsGap run after) ∧
      (forall text, forall run after, scanLine text = .ok (run, after) ->
        text.ReadsGap run after) ∧
        forall text, forall opened run after, scanBlock opened text = .ok (run, after) ->
          text.ReadsGap run after := by
  apply gap_induction
  case atEnd =>
    intro run after scanned
    obtain ⟨rfl, rfl⟩ : [] = run ∧ [] = after := by simpa using scanned
    exact .nil
  case lineOpens =>
    intro body ih run after scanned
    obtain ⟨inner, scannedBody, rfl⟩ := scanGap_line_eq_ok.1 scanned
    exact (ih inner after scannedBody).append ['/', '/']
  case blockOpens =>
    intro body ih run after scanned
    obtain ⟨inner, scannedBody, rfl⟩ := scanGap_block_eq_ok.1 scanned
    exact (ih _ inner after scannedBody).append ['/', '*']
  case step =>
    intro first rest plain ih run after scanned
    cases blank : Text.isBlank first with
    | true =>
        obtain ⟨inner, scannedRest, rfl⟩ := (scanGap_of_isBlank blank).1 scanned
        exact (ih blank inner after scannedRest).append [first]
    | false =>
        rw [scanGap_of_solid plain blank] at scanned
        obtain ⟨rfl, rfl⟩ : [] = run ∧ first :: rest = after := by simpa using scanned
        exact ⟨rfl, by simp [Text.isSolid, plain, blank]⟩
  case lineAtEnd =>
    intro run after scanned
    obtain ⟨rfl, rfl⟩ : [] = run ∧ [] = after := by simpa using scanned
    exact .nil
  case lineBreaks =>
    intro rest ih run after scanned
    obtain ⟨inner, scannedRest, rfl⟩ := scanLine_break_eq_ok.1 scanned
    exact (ih inner after scannedRest).append ['\n']
  case lineStep =>
    intro first rest other ih run after scanned
    obtain ⟨inner, scannedRest, rfl⟩ := (scanLine_eq_ok other).1 scanned
    exact (ih inner after scannedRest).append [first]
  case blockAtEnd => simp
  case blockCloses =>
    intro rest ih opened run after scanned
    obtain ⟨inner, scannedRest, rfl⟩ := scanBlock_close_eq_ok.1 scanned
    exact (ih inner after scannedRest).append ['*', '/']
  case blockStep =>
    intro first rest inside ih opened run after scanned
    obtain ⟨inner, scannedRest, rfl⟩ := (scanBlock_eq_ok inside).1 scanned
    exact (ih opened inner after scannedRest).append [first]

/-- A gap is read off the start of the text. -/
theorem eq_append_of_scanGap
    (scanned : scanGap text = .ok (run, after)) :
    text = run ++ after :=
  (readsGap_of_scan.1 text run after scanned).1

/-- The rest of a block comment is read off the start of the text. -/
theorem eq_append_of_scanBlock
    (scanned : scanBlock opened text = .ok (run, after)) :
    text = run ++ after :=
  (readsGap_of_scan.2.2 text opened run after scanned).1

/-- Where a gap ends, no blank and no comment goes on. -/
theorem isSolid_of_scanGap
    (scanned : scanGap text = .ok (run, after)) :
    after.isSolid = true :=
  (readsGap_of_scan.1 text run after scanned).2

end Prefix

/-!
## Spaces that a scanner reads back

A space is a gap when it holds blanks and comments alone, in a form that the scanner of a grammar reads as a
whole: a line comment has no line break inside and one right after it, and a block comment has no closing
delimiter inside. At the end of a text the last line comment needs no line break.
-/

namespace Text

/-- A line break starts the text. -/
def startsBreak : Text -> Bool
  | '\n' :: _ => true
  | '\r' :: '\n' :: _ => true
  | _ => false

/-- No block comment ends inside the text. -/
def hasNoClosing : Text -> Bool
  | [] => true
  | first :: rest => !startsClosing (first :: rest) && hasNoClosing rest

/-- No line break stands inside the text. -/
def hasNoBreak (text : Text) : Bool :=
  text.all fun char => char != '\n' && char != '\r'

theorem hasPairedReturns_of_notMem
    {text : Text}
    (noReturn : '\r' ∉ text) :
    text.hasPairedReturns = true := by
  induction text with
  | nil => rfl
  | cons first rest ih =>
      rw [List.mem_cons, not_or] at noReturn
      rw [hasPairedReturns, ih noReturn.2]
      simp [Ne.symm noReturn.1]

theorem hasPairedReturns_of_hasNoBreak
    {text : Text}
    (noBreak : text.hasNoBreak = true) :
    text.hasPairedReturns = true :=
  hasPairedReturns_of_notMem fun member => by simpa using List.all_eq_true.1 noBreak '\r' member

/-- What is no blank is no line break. -/
theorem head?_ne_of_isSolid
    {text : Text}
    (solid : text.isSolid = true) :
    text.head? ≠ some '\n' := by
  rintro head
  obtain ⟨rest, rfl⟩ := List.head?_eq_some_iff.1 head
  revert solid
  simp only [isSolid, Bool.and_eq_true, Bool.not_eq_true']
  rintro ⟨solid, -⟩
  revert solid
  decide

end Text

namespace Comment

/-- Kind and text of a comment. -/
def skipped (comment : Comment) : SkippedComment :=
  ⟨comment.isBlock, comment.text⟩

/-- The text of a comment has no end of the comment inside. -/
def isContained (comment : Comment) : Bool :=
  if comment.isBlock then comment.text.hasNoClosing else comment.text.hasNoBreak

/-- The whitespace after a comment ends the comment. -/
def isEnded (comment : Comment) : Bool :=
  comment.isBlock || comment.suffix.startsBreak

/-- The texts of a comment have paired returns. -/
def IsPaired (comment : Comment) : Prop :=
  comment.text.hasPairedReturns = true ∧ comment.suffix.hasPairedReturns = true

/-- A comment that can stand in a gap; `last` says that the text ends after it. -/
def IsClosed
    (last : Bool)
    (comment : Comment) : Prop :=
  comment.suffix.all Text.isBlank = true ∧ comment.markers = .empty ∧
    comment.isContained = true ∧
      (comment.isEnded = true ∨ last = true ∧ (comment.suffix = [] ∨ comment.suffix = ['\r']))

/-- Comments that can stand in a gap one after the other; `final` says that the text ends after them. -/
def AllClosed (final : Bool) : List Comment -> Prop
  | [] => True
  | comment :: rest => comment.IsClosed (final && rest.isEmpty) ∧ AllClosed final rest

/-- Behind each comment stand blanks alone. -/
theorem AllClosed.suffix_blank
    {final : Bool}
    {comments : List Comment}
    (closed : AllClosed final comments) :
    forall comment, comment ∈ comments -> comment.suffix.all Text.isBlank = true := by
  induction comments with
  | nil => simp
  | cons first rest ih =>
      intro comment member
      rcases List.mem_cons.1 member with rfl | later
      · exact closed.1.1
      · exact ih closed.2 comment later

end Comment

namespace Space

/-- Every text of the space has paired returns. -/
def IsPaired (space : Space) : Prop :=
  space.whitespace.hasPairedReturns = true ∧
    forall comment, comment ∈ space.comments -> comment.IsPaired

/-- Blanks and comments that a scanner reads as a whole; `final` says that the text ends after them. -/
structure IsGapTo
    (final : Bool)
    (space : Space) : Prop where
  blank : space.whitespace.all Text.isBlank = true
  closed : Comment.AllClosed final space.comments
  paired : space.IsPaired

/-- Blanks and comments that a scanner reads as a whole, whatever comes after them. -/
abbrev IsGap (space : Space) : Prop := space.IsGapTo false

theorem isGapTo_of_isEmpty
    {space : Space}
    (isEmpty : space.isEmpty = true)
    (final : Bool) :
    space.IsGapTo final := by
  obtain ⟨stamp, whitespace, comments⟩ := space
  obtain ⟨rfl, rfl⟩ : whitespace = [] ∧ comments = [] := by simpa [Space.isEmpty] using isEmpty
  exact ⟨rfl, trivial, rfl, nofun⟩

theorem isGapTo_empty (final : Bool) : empty.IsGapTo final :=
  isGapTo_of_isEmpty rfl final

/-- A comment stands right at the start of the space. -/
def startsComment (space : Space) : Bool :=
  space.whitespace.isEmpty && !space.comments.isEmpty

end Space

/-! ### One step of the splitter -/

namespace Space

section Steps

variable {first : Char} {text rest : Text} {delimiters : CommentDelimiters}

@[simp] theorem splitGap_nil : splitGap delimiters [] = ([], []) := rfl

@[simp] theorem splitLine_nil : splitLine delimiters [] = ([], [], []) := rfl

theorem splitGap_line :
    splitGap .slash ('/' :: '/' :: text) =
      ([], .build false (splitLine .slash text).1 (splitLine .slash text).2.1 ::
        (splitLine .slash text).2.2) := rfl

theorem splitGap_block :
    splitGap .slash ('/' :: '*' :: text) =
      ([], .build true (splitBlock .slash text).1 (splitBlock .slash text).2.1 ::
        (splitBlock .slash text).2.2) := rfl

theorem splitGap_cons
    (plain : Text.startsComment (first :: rest) = false) :
    splitGap .slash (first :: rest) =
      (first :: (splitGap .slash rest).1, (splitGap .slash rest).2) := by
  conv => lhs; unfold splitGap
  split
  · simp [Text.startsComment] at plain
  · simp [Text.startsComment] at plain
  · contradiction
  · rfl

theorem splitGap_hash :
    splitGap .hash ('#' :: text) =
      ([], .build false (splitLine .hash text).1 (splitLine .hash text).2.1 ::
        (splitLine .hash text).2.2) := rfl

theorem splitGap_hash_cons
    (plain : first ≠ '#') :
    splitGap .hash (first :: rest) =
      (first :: (splitGap .hash rest).1, (splitGap .hash rest).2) := by
  conv => lhs; unfold splitGap
  split
  · contradiction
  · contradiction
  · contradiction
  · rfl

/-- Blanks belong to no comment, however comments are written. -/
theorem splitGap_of_isBlank
    (blank : Text.isBlank first = true) :
    splitGap delimiters (first :: rest) =
      (first :: (splitGap delimiters rest).1, (splitGap delimiters rest).2) := by
  cases delimiters with
  | slash => exact splitGap_cons (Text.startsComment_of_isBlank blank rest)
  | hash =>
      refine splitGap_hash_cons ?_
      rintro rfl
      exact absurd blank (by decide)

theorem splitLine_break
    (breaks : first = '\n' ∨ first = '\r') :
    splitLine delimiters (first :: rest) =
      ([], first :: (splitGap delimiters rest).1, (splitGap delimiters rest).2) := by
  rcases breaks with rfl | rfl <;> rfl

theorem splitLine_cons
    (noFeed : first ≠ '\n')
    (noReturn : first ≠ '\r') :
    splitLine delimiters (first :: rest) =
      (first :: (splitLine delimiters rest).1, (splitLine delimiters rest).2) := by
  rw [splitLine, if_neg (by simp [noFeed, noReturn])]

theorem splitBlock_close :
    splitBlock delimiters ('*' :: '/' :: rest) =
      ([], (splitGap delimiters rest).1, (splitGap delimiters rest).2) := rfl

theorem splitBlock_cons
    (inside : Text.startsClosing (first :: rest) = false) :
    splitBlock delimiters (first :: rest) =
      (first :: (splitBlock delimiters rest).1, (splitBlock delimiters rest).2) := by
  conv => lhs; unfold splitBlock
  split
  · simp [Text.startsClosing] at inside
  · rfl

/-- Induction along a split: outside comments, inside a line comment and inside a block comment. -/
theorem split_induction
    {outside inLine inBlock : Text -> Prop}
    (atEnd : outside [])
    (lineOpens : forall body, inLine body -> outside ('/' :: '/' :: body))
    (blockOpens : forall body, inBlock body -> outside ('/' :: '*' :: body))
    (step : forall first rest, Text.startsComment (first :: rest) = false ->
      outside rest -> outside (first :: rest))
    (lineAtEnd : inLine [])
    (lineBreaks : forall first rest, first = '\n' ∨ first = '\r' ->
      outside rest -> inLine (first :: rest))
    (lineStep : forall first rest, first ≠ '\n' -> first ≠ '\r' ->
      inLine rest -> inLine (first :: rest))
    (blockAtEnd : inBlock [])
    (blockCloses : forall rest, outside rest -> inBlock ('*' :: '/' :: rest))
    (blockStep : forall first rest, Text.startsClosing (first :: rest) = false ->
      inBlock rest -> inBlock (first :: rest)) :
    (forall text, outside text) ∧ (forall text, inLine text) ∧ forall text, inBlock text := by
  have all := splitGap.mutual_induct .slash outside inBlock inLine atEnd
    (fun body _ _ _ _ _ => lineOpens body)
    (fun body _ _ _ _ _ => blockOpens body)
    (fun _ isHash => by cases isHash)
    (fun first rest _ _ _ noLine noBlock _ => step first rest <|
      Text.startsComment_eq_false (fun body => noLine body rfl) (fun body => noBlock body rfl))
    blockAtEnd (fun rest _ _ _ => blockCloses rest)
    (fun first rest noClose _ _ _ _ => blockStep first rest (Text.startsClosing_eq_false noClose))
    lineAtEnd
    (fun first rest breaks _ _ _ => lineBreaks first rest (by simpa using breaks))
    (fun first rest inside _ _ _ _ => by
      obtain ⟨noFeed, noReturn⟩ : first ≠ '\n' ∧ first ≠ '\r' := by simpa using inside
      exact lineStep first rest noFeed noReturn)
  exact ⟨all.1, all.2.2, all.2.1⟩

/-- The text of a block comment starts as the text that it is read from. -/
theorem head?_splitBlock
    {next : Char}
    (head : (splitBlock .slash rest).1.head? = some next) :
    rest.head? = some next := by
  cases rest with
  | nil => simp [splitBlock] at head
  | cons first rest =>
      by_cases closing : Text.startsClosing (first :: rest) = true
      · obtain ⟨tail, rfl, rfl⟩ := Text.startsClosing_iff.1 closing
        simp [splitBlock_close] at head
      · rw [splitBlock_cons (by simpa using closing)] at head
        simpa using head

/-- The text of a block comment has no end of the comment inside. -/
theorem hasNoClosing_splitBlock (text : Text) :
    (splitBlock .slash text).1.hasNoClosing = true := by
  induction text with
  | nil => rfl
  | cons first rest ih =>
      cases closing : Text.startsClosing (first :: rest) with
      | true =>
          obtain ⟨tail, rfl, rfl⟩ := Text.startsClosing_iff.1 closing
          rfl
      | false =>
          rw [splitBlock_cons closing, Text.hasNoClosing, ih, Bool.and_true, Bool.not_eq_true']
          refine Bool.eq_false_iff.2 fun inside => ?_
          obtain ⟨tail, rfl, starts⟩ := Text.startsClosing_iff.1 inside
          have next : rest.head? = some '/' := head?_splitBlock (by rw [starts]; rfl)
          obtain ⟨more, rfl⟩ := List.head?_eq_some_iff.1 next
          simp [Text.startsClosing] at closing

/-- No comment that is split off has its end inside. -/
theorem isContained_of_mem_splitGap
    (text : Text) :
    forall comment, comment ∈ (splitGap .slash text).2 -> comment.isContained = true := by
  have all : (forall text : Text, forall comment, comment ∈ (splitGap .slash text).2 ->
        comment.isContained = true) ∧
      (forall text, (splitLine .slash text).1.hasNoBreak = true ∧
        forall comment, comment ∈ (splitLine .slash text).2.2 -> comment.isContained = true) ∧
      forall text, forall comment, comment ∈ (splitBlock .slash text).2.2 ->
        comment.isContained = true := by
    apply split_induction
    case atEnd => simp
    case lineOpens =>
      intro body ih comment member
      rw [splitGap_line] at member
      rcases List.mem_cons.1 member with rfl | later
      · exact ih.1
      · exact ih.2 comment later
    case blockOpens =>
      intro body ih comment member
      rw [splitGap_block] at member
      rcases List.mem_cons.1 member with rfl | later
      · exact hasNoClosing_splitBlock body
      · exact ih comment later
    case step =>
      intro first rest plain ih
      rw [splitGap_cons plain]
      exact ih
    case lineAtEnd => simp [Text.hasNoBreak]
    case lineBreaks =>
      intro first rest breaks ih
      rw [splitLine_break breaks]
      exact ⟨rfl, ih⟩
    case lineStep =>
      intro first rest noFeed noReturn ih
      rw [splitLine_cons noFeed noReturn]
      refine ⟨?_, ih.2⟩
      simpa [Text.hasNoBreak, noFeed, noReturn] using ih.1
    case blockAtEnd => simp [splitBlock]
    case blockCloses =>
      intro rest ih
      rw [splitBlock_close]
      exact ih
    case blockStep =>
      intro first rest inside ih
      rw [splitBlock_cons inside]
      exact ih
  exact all.1 text

end Steps
end Space

end Lossless
