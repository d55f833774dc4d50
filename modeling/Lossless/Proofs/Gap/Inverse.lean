import Lossless.Proofs.Gap.Reading

/-!
# Spaces and their texts

A scan of a text from left to right, one character at a time, is outside comments, inside a line comment or inside a
block comment. A text is written as it was read exactly when the scan does not end inside a block comment; one that does
is written with the comment closed.

The other way round, a space is read back from what is written of it when its comments end where they seem to. What is
read is the one empty space or the one single blank where there is one. Markers of comments are not written, so that the
space that is read has none.
-/

namespace Lossless

/-! ## Scanning a text -/

/-- What a scan from left to right is inside of. -/
inductive ScanState
  /-- Outside comments, perhaps right behind a slash. -/
  | outside (afterSlash : Bool)
  | inLine
  /-- Inside a block comment, perhaps right behind a star in it. -/
  | inBlock (afterStar : Bool)
  deriving DecidableEq

namespace ScanState

/-- Go on by one character. -/
def step (delimiters : CommentDelimiters) : ScanState -> Char -> ScanState
  | outside afterSlash, char =>
      match delimiters with
      | .slash =>
          if afterSlash && char = '/' then inLine
          else if afterSlash && char = '*' then inBlock false
          else outside (char = '/')
      | .hash => if char = '#' then inLine else outside false
  | inLine, char => if char = '\n' || char = '\r' then outside false else inLine
  | inBlock afterStar, char => if afterStar && char = '/' then outside false else inBlock (char = '*')

/-- Go on by a text. -/
def scanFrom
    (delimiters : CommentDelimiters)
    (state : ScanState)
    (text : Text) : ScanState :=
  text.foldl (step delimiters) state

/-- Scan a text from its start. -/
def scan
    (delimiters : CommentDelimiters)
    (text : Text) : ScanState :=
  scanFrom delimiters (outside false) text

@[simp] theorem scanFrom_nil
    (delimiters : CommentDelimiters)
    (state : ScanState) :
    scanFrom delimiters state [] = state := rfl

@[simp] theorem scanFrom_cons
    (delimiters : CommentDelimiters)
    (state : ScanState)
    (first : Char)
    (rest : Text) :
    scanFrom delimiters state (first :: rest) = scanFrom delimiters (state.step delimiters first) rest := rfl

/-- A block comment is open. -/
def isInBlock : ScanState -> Bool
  | inBlock _ => true
  | _ => false

/-- What closes the comment that is open. -/
def closing (state : ScanState) : Text :=
  if state.isInBlock then ['*', '/'] else []

theorem closing_eq_nil_iff (state : ScanState) : state.closing = [] ↔ state.isInBlock = false := by
  unfold closing
  cases state.isInBlock <;> simp

section Slash

variable {first : Char} {rest : Text}

/-- A slash that opens no comment makes no difference behind it. -/
theorem closing_afterSlash (plain : Text.startsComment ('/' :: rest) = false) :
    (scanFrom .slash (outside true) rest).closing = (scanFrom .slash (outside false) rest).closing := by
  cases rest with
  | nil => rfl
  | cons next more =>
      have noSlash : next ≠ '/' := by
        rintro rfl
        simp [Text.startsComment] at plain
      have noStar : next ≠ '*' := by
        rintro rfl
        simp [Text.startsComment] at plain
      simp [step, noSlash, noStar]

/-- A star that closes no comment makes no difference behind it. -/
theorem closing_afterStar (inside : Text.startsClosing ('*' :: rest) = false) :
    (scanFrom .slash (inBlock true) rest).closing = (scanFrom .slash (inBlock false) rest).closing := by
  cases rest with
  | nil => rfl
  | cons next more =>
      have noSlash : next ≠ '/' := by
        rintro rfl
        simp [Text.startsClosing] at inside
      simp [step, noSlash]

theorem closing_plain (plain : Text.startsComment (first :: rest) = false) :
    (scanFrom .slash (outside false) (first :: rest)).closing = (scanFrom .slash (outside false) rest).closing := by
  by_cases slash : first = '/'
  · subst slash
    exact closing_afterSlash plain
  · simp [step, slash]

theorem closing_inside (inside : Text.startsClosing (first :: rest) = false) :
    (scanFrom .slash (inBlock false) (first :: rest)).closing = (scanFrom .slash (inBlock false) rest).closing := by
  by_cases star : first = '*'
  · subst star
    exact closing_afterStar inside
  · simp [step, star]

end Slash

end ScanState

namespace Space

open ScanState

/-! ## Writing what was read -/

/-- Whitespace and comments as they are written. -/
def written
    (delimiters : CommentDelimiters)
    (gap : Text × List Comment) : Text :=
  gap.1 ++ gap.2.flatMap fun comment => comment.render delimiters ++ comment.suffix

@[simp] theorem written_nil (delimiters : CommentDelimiters) : written delimiters ([], []) = [] := rfl

@[simp] theorem written_blank
    (delimiters : CommentDelimiters)
    (first : Char)
    (whitespace : Text)
    (comments : List Comment) :
    written delimiters (first :: whitespace, comments) = first :: written delimiters (whitespace, comments) := rfl

/-- A comment and what stands behind it. -/
theorem written_comment
    (delimiters : CommentDelimiters)
    (isBlock : Bool)
    (text suffix : Text)
    (comments : List Comment) :
    written delimiters ([], .build isBlock text suffix :: comments) =
      (Comment.build isBlock text suffix).render delimiters ++ written delimiters (suffix, comments) := by
  simp [written, Comment.build]

theorem written_splitGap_slash (text : Text) :
    written .slash (splitGap .slash text) = text ++ (scan .slash text).closing := by
  have all : (forall text, written .slash (splitGap .slash text) =
        text ++ (scanFrom .slash (outside false) text).closing) ∧
      (forall text, (splitLine .slash text).1 ++ written .slash (splitLine .slash text).2 =
        text ++ (scanFrom .slash inLine text).closing) ∧
      forall text, (splitBlock .slash text).1 ++ ['*', '/'] ++ written .slash (splitBlock .slash text).2 =
        text ++ (scanFrom .slash (inBlock false) text).closing := by
    apply split_induction
    case atEnd => rfl
    case lineOpens =>
      intro body ih
      rw [splitGap_line, written_comment]
      simpa [Comment.build, Comment.render, step] using ih
    case blockOpens =>
      intro body ih
      rw [splitGap_block, written_comment]
      simpa [Comment.build, Comment.render, step] using ih
    case step =>
      intro first rest plain ih
      rw [splitGap_cons plain, written_blank, closing_plain plain, ih, List.cons_append]
    case lineAtEnd => rfl
    case lineBreaks =>
      intro first rest breaks ih
      have ends : inLine.step .slash first = outside false := if_pos (by simpa using breaks)
      rw [splitLine_break breaks, List.nil_append, written_blank, ih, scanFrom_cons, ends, List.cons_append]
    case lineStep =>
      intro first rest noFeed noReturn ih
      have goesOn : inLine.step .slash first = inLine := if_neg (by simp [noFeed, noReturn])
      rw [splitLine_cons noFeed noReturn, List.cons_append, ih, scanFrom_cons, goesOn, List.cons_append]
    case blockAtEnd => rfl
    case blockCloses =>
      intro rest ih
      rw [splitBlock_close]
      simpa [step] using ih
    case blockStep =>
      intro first rest inside ih
      rw [splitBlock_cons inside, closing_inside inside, List.cons_append, List.cons_append, ih, List.cons_append]
  exact all.1 text

theorem written_splitGap_hash (text : Text) :
    written .hash (splitGap .hash text) = text ++ (scan .hash text).closing := by
  suffices written .hash (splitGap .hash text) = text ++ (scanFrom .hash (outside false) text).closing ∧
      (splitLine .hash text).1 ++ written .hash (splitLine .hash text).2 =
        text ++ (scanFrom .hash inLine text).closing from this.1
  induction text with
  | nil => exact ⟨rfl, rfl⟩
  | cons first rest ih =>
      obtain ⟨atGap, atLine⟩ := ih
      constructor
      · by_cases opens : first = '#'
        · subst opens
          rw [splitGap_hash, written_comment]
          simpa [Comment.build, Comment.render, step] using atLine
        · have goesOn : (outside false).step .hash first = outside false := if_neg opens
          rw [splitGap_hash_cons opens, written_blank, atGap, scanFrom_cons, goesOn, List.cons_append]
      · by_cases breaks : first = '\n' ∨ first = '\r'
        · have ends : inLine.step .hash first = outside false := if_pos (by simpa using breaks)
          rw [splitLine_break breaks, List.nil_append, written_blank, atGap, scanFrom_cons, ends, List.cons_append]
        · obtain ⟨noFeed, noReturn⟩ := not_or.1 breaks
          have goesOn : inLine.step .hash first = inLine := if_neg (by simp [noFeed, noReturn])
          rw [splitLine_cons noFeed noReturn, List.cons_append, atLine, scanFrom_cons, goesOn, List.cons_append]

/-- A text is written as it was read, with the block comment closed that it leaves open. -/
theorem render_formatWith
    (delimiters : CommentDelimiters)
    (text : Text) :
    (formatWith delimiters text).render delimiters = text ++ (scan delimiters text).closing := by
  have asWritten : (formatWith delimiters text).render delimiters = written delimiters (splitGap delimiters text) := by
    rw [render, formatWith, whitespace_build, comments_build]
    rfl
  rw [asWritten]
  cases delimiters with
  | slash => exact written_splitGap_slash text
  | hash => exact written_splitGap_hash text

end Space

/-! ## Reading what was written -/

namespace Comment

/-- The comment without its markers. -/
def unmarked (comment : Comment) : Comment :=
  .build comment.isBlock comment.text comment.suffix

/-- Comments that end where they seem to, with blanks alone between them. -/
structure AreReadable
    (delimiters : CommentDelimiters)
    (comments : List Comment) : Prop where
  suffixes : forall comment, comment ∈ comments -> comment.suffix.all Text.isBlank = true
  /-- A line comment is on one line. -/
  lines : forall comment, comment ∈ comments -> comment.isBlock = false -> '\n' ∉ comment.text ∧ '\r' ∉ comment.text
  /-- A line comment is ended by the line, or else by the text. -/
  ends : forall front comment behind, comments = front ++ comment :: behind -> comment.isBlock = false ->
    (exists rest, comment.suffix = '\n' :: rest ∨ comment.suffix = '\r' :: rest) ∨ comment.suffix = [] ∧ behind = []
  /-- A block comment can be written, and does not end before its end. -/
  blocks : forall comment, comment ∈ comments -> comment.isBlock = true ->
    delimiters = .slash ∧ ¬ ['*', '/'] <:+: comment.text

section Readable

variable {delimiters : CommentDelimiters} {first : Comment} {rest : List Comment}

theorem AreReadable.tail (readable : AreReadable delimiters (first :: rest)) : AreReadable delimiters rest where
  suffixes := fun comment member => readable.suffixes comment (List.mem_cons_of_mem first member)
  lines := fun comment member => readable.lines comment (List.mem_cons_of_mem first member)
  ends := fun front comment behind parts => readable.ends (first :: front) comment behind (congrArg (first :: ·) parts)
  blocks := fun comment member => readable.blocks comment (List.mem_cons_of_mem first member)

/-- Comments without markers agree with the comments if these have the marker set that is empty. -/
theorem listAgrees_unmarked_iff (comments : List Comment) :
    listAgrees (comments.map unmarked) comments = true ↔
      forall comment, comment ∈ comments -> comment.markers.agrees .empty = true := by
  induction comments with
  | nil => exact iff_of_true rfl (by simp)
  | cons first rest ih =>
      have here : first.unmarked.agrees first = true ↔ first.markers.agrees .empty = true := by
        simp [agrees, unmarked, build, Markers.agrees, eq_comm]
      rw [List.map_cons, listAgrees, Bool.and_eq_true, here, ih, List.forall_mem_cons]

end Readable

end Comment

namespace Text

theorem hasNoClosing_iff (text : Text) : text.hasNoClosing = true ↔ ¬ ['*', '/'] <:+: text := by
  induction text with
  | nil => simp [hasNoClosing]
  | cons first rest ih =>
      have starts : startsClosing (first :: rest) = true ↔ ['*', '/'] <+: first :: rest := by
        rw [startsClosing_iff, List.cons_prefix_cons]
        cases rest <;> simp [eq_comm]
      rw [hasNoClosing, Bool.and_eq_true, Bool.not_eq_true', ← Bool.not_eq_true, starts, ih, List.infix_cons_iff, not_or]

theorem hasNoBreak_iff (text : Text) : text.hasNoBreak = true ↔ '\n' ∉ text ∧ '\r' ∉ text := by
  rw [hasNoBreak, List.all_eq_true]
  grind

end Text

namespace Space

/-- Blanks and comments that are read as they are written. -/
structure IsReadable
    (delimiters : CommentDelimiters)
    (space : Space) : Prop where
  whitespace : space.whitespace.all Text.isBlank = true
  comments : Comment.AreReadable delimiters space.comments

section Reading

variable {delimiters : CommentDelimiters} {text : Text}

/-- What stands behind a line comment ends it. -/
theorem splitLine_suffix
    {suffix : Text}
    (blank : suffix.all Text.isBlank = true)
    (ends : (exists rest, suffix = '\n' :: rest ∨ suffix = '\r' :: rest) ∨ suffix = [] ∧ text = [])
    (noBlank : (splitGap delimiters text).1 = []) :
    splitLine delimiters (suffix ++ text) = ([], suffix, (splitGap delimiters text).2) := by
  rcases ends with ⟨rest, breaks⟩ | ⟨rfl, rfl⟩
  · obtain ⟨first, isBreak, rfl⟩ : exists first, (first = '\n' ∨ first = '\r') ∧ suffix = first :: rest := by
      rcases breaks with rfl | rfl
      · exact ⟨'\n', .inl rfl, rfl⟩
      · exact ⟨'\r', .inr rfl, rfl⟩
    rw [List.all_cons, Bool.and_eq_true] at blank
    rw [List.cons_append, splitLine_break isBreak, splitGap_append_blank blank.2, noBlank, List.append_nil]
  · rfl

/-- Comments that end where they seem to are read as they are written, without markers. -/
theorem splitGap_written
    {comments : List Comment}
    (readable : Comment.AreReadable delimiters comments) :
    splitGap delimiters (written delimiters ([], comments)) = ([], comments.map Comment.unmarked) := by
  induction comments with
  | nil => rfl
  | cons comment others ih =>
      have others_split := ih readable.tail
      have blank := readable.suffixes comment List.mem_cons_self
      have ends := readable.ends [] comment others rfl
      have contained := readable.lines comment List.mem_cons_self
      have closed := readable.blocks comment List.mem_cons_self
      obtain ⟨isBlock, body, suffix, markers⟩ := comment
      have parts : written delimiters ([], ⟨isBlock, body, suffix, markers⟩ :: others) =
          Comment.render delimiters ⟨isBlock, body, suffix, markers⟩ ++ (suffix ++ written delimiters ([], others)) := by
        simp [written]
      have atEnd (line : isBlock = false) : (exists rest, suffix = '\n' :: rest ∨ suffix = '\r' :: rest) ∨
          suffix = [] ∧ written delimiters ([], others) = [] := by
        refine (ends line).imp_right fun ⟨bare, last⟩ => ⟨bare, ?_⟩
        rw [last]
        rfl
      rw [parts, List.map_cons, Comment.unmarked]
      generalize written delimiters ([], others) = behind at others_split atEnd
      have noBlank : (splitGap delimiters behind).1 = [] := by rw [others_split]
      cases isBlock with
      | true =>
          obtain ⟨rfl, inside⟩ := closed rfl
          have atSuffix : splitGap .slash (suffix ++ behind) = (suffix, others.map Comment.unmarked) := by
            rw [splitGap_append_blank blank, others_split, List.append_nil]
          have opened : Comment.render .slash ⟨true, body, suffix, markers⟩ ++ (suffix ++ behind) =
              '/' :: '*' :: (body ++ '*' :: '/' :: (suffix ++ behind)) := by
            simp [Comment.render]
          rw [opened, splitGap_block, splitBlock_append ((Text.hasNoClosing_iff body).2 inside), atSuffix]
      | false =>
          have inside : body.hasNoBreak = true := (Text.hasNoBreak_iff body).2 (contained rfl)
          have atLine : splitLine delimiters (body ++ (suffix ++ behind)) =
              (body, suffix, others.map Comment.unmarked) := by
            rw [splitLine_append inside, splitLine_suffix blank (atEnd rfl) noBlank, others_split, List.append_nil]
          cases delimiters with
          | slash =>
              have opened : Comment.render .slash ⟨false, body, suffix, markers⟩ ++ (suffix ++ behind) =
                  '/' :: '/' :: (body ++ (suffix ++ behind)) := by
                simp [Comment.render]
              rw [opened, splitGap_line, atLine]
          | hash =>
              have opened : Comment.render .hash ⟨false, body, suffix, markers⟩ ++ (suffix ++ behind) =
                  '#' :: (body ++ (suffix ++ behind)) := by
                simp [Comment.render]
              rw [opened, splitGap_hash, atLine]

/-- A space is read back from what is written of it, as a new cell and without markers. -/
theorem formatWith_render
    {space : Space}
    (readable : space.IsReadable delimiters) :
    formatWith delimiters (space.render delimiters) = build space.whitespace (space.comments.map Comment.unmarked) := by
  have parts : space.render delimiters = space.whitespace ++ written delimiters ([], space.comments) := rfl
  rw [parts, formatWith, splitGap_append_blank readable.whitespace, splitGap_written readable.comments, List.append_nil]

end Reading

/--
For either way of writing comments: a text is written as it was read exactly when a scan leaves no block comment open.
A space whose comments end where they seem to is read back from what is written of it, but for the markers of comments;
the two are equal as values exactly when every marker set of a comment counts as the empty one. The empty space and the
single blank are read as the one cell that there is of each.
-/
theorem spaces_areReadBack (delimiters : CommentDelimiters) :
    (forall text, (formatWith delimiters text).render delimiters = text ↔
      (ScanState.scan delimiters text).isInBlock = false) ∧
    (forall space : Space, space.IsReadable delimiters ->
      let read := formatWith delimiters (space.render delimiters)
      read.whitespace = space.whitespace ∧ read.comments = space.comments.map Comment.unmarked ∧
        (read.agrees space = true ↔ forall comment, comment ∈ space.comments -> comment.markers.agrees .empty = true) ∧
        (space.isEmpty = true -> read = .empty) ∧
        (space.whitespace = [' '] -> space.comments = [] -> read = .single)) := by
  refine ⟨fun text => ?_, fun space readable => ?_⟩
  · rw [render_formatWith, ← ScanState.closing_eq_nil_iff]
    exact List.append_right_eq_self
  · dsimp only
    rw [formatWith_render readable]
    refine ⟨whitespace_build .., comments_build .., ?_, fun isEmpty => ?_, fun blank none => ?_⟩
    · rw [agrees, whitespace_build, comments_build, Bool.and_eq_true, Comment.listAgrees_unmarked_iff]
      exact and_iff_right (decide_eq_true rfl)
    · obtain ⟨blank, none⟩ : space.whitespace = [] ∧ space.comments = [] := by simpa [Space.isEmpty] using isEmpty
      rw [blank, none]
      rfl
    · rw [blank, none]
      rfl

/-- A block comment that seems to end at once, and a line comment at the end of the text. -/
theorem spaces_areReadBack_ofComments :
    let space : Space := .build ['\n'] [.build true ['/'] [], .build false ['/', ' ', 'c'] []]
    space.render .slash = "\n/*/*//// c".toList ∧ space.IsReadable .slash ∧
      (formatWith .slash (space.render .slash)).agrees space = true := by
  intro space
  have ends : forall front comment behind, space.comments = front ++ comment :: behind -> comment.isBlock = false ->
      (exists rest, comment.suffix = '\n' :: rest ∨ comment.suffix = '\r' :: rest) ∨
        comment.suffix = [] ∧ behind = [] := by
    intro front comment behind parts line
    match front with
    | [] =>
        obtain ⟨rfl, -⟩ := List.cons.inj parts
        cases line
    | [_] =>
        obtain ⟨rfl, last⟩ := List.cons.inj (List.cons.inj parts).2
        exact .inr ⟨rfl, last.symm⟩
    | _ :: _ :: more => simp [space] at parts
  have readable : space.IsReadable .slash := ⟨by decide, by decide, by decide, ends, by decide⟩
  refine ⟨by decide, readable, ?_⟩
  rw [((spaces_areReadBack .slash).2 space readable).2.2.1]
  decide

/-- A line comment with a marker is read back without it, and does not equal what it was. -/
theorem markedComment_isNotReadBack :
    let comment : Comment := { Comment.build false [' ', 'c'] [] with markers := .build [.build (.searchResult none)] }
    let space : Space := .build [] [comment]
    space.IsReadable .slash ∧ (formatWith .slash (space.render .slash)).agrees space = false := by
  intro comment space
  have ends : forall front last behind, space.comments = front ++ last :: behind -> last.isBlock = false ->
      (exists rest, last.suffix = '\n' :: rest ∨ last.suffix = '\r' :: rest) ∨ last.suffix = [] ∧ behind = [] := by
    intro front last behind parts _
    match front with
    | [] =>
        obtain ⟨rfl, others⟩ := List.cons.inj parts
        exact .inr ⟨rfl, others.symm⟩
    | _ :: more => simp [space] at parts
  exact ⟨⟨by decide, by decide, by decide, ends, by decide⟩, by decide⟩

end Space

/-!
## Replaced comments

Comments are compared by the identifiers of their marker sets, and a set keeps its identifier when its markers change.
So comments with other markers in the same sets count as the old ones, and replacing the old ones by them does nothing.
-/

namespace Comment

/-- What a comment holds: its kind, its text and suffix, and the markers of its set, whichever set that is. -/
def content (comment : Comment) : Bool × Text × Text × List (Marker Empty) :=
  (comment.isBlock, comment.text, comment.suffix, comment.markers.toList)

/-- What a comment is compared by: its marker set counts by its identifier. -/
def compared (comment : Comment) : Bool × Text × Text × Stamp :=
  (comment.isBlock, comment.text, comment.suffix, comment.markers.id)

/-- The comment with other markers in its set. -/
def mapMarkers
    (change : List (Marker Empty) -> List (Marker Empty))
    (comment : Comment) : Comment :=
  { comment with markers := comment.markers.withMarkers (change comment.markers.toList) }

theorem agrees_iff
    (left right : Comment) :
    left.agrees right = true ↔ left.compared = right.compared := by
  simp [agrees, compared, Markers.agrees, and_assoc]

theorem listAgrees_iff
    (left right : List Comment) :
    listAgrees left right = true ↔ left.map compared = right.map compared := by
  induction left generalizing right with
  | nil => cases right <;> simp [listAgrees]
  | cons first rest ih =>
      cases right with
      | nil => simp [listAgrees]
      | cons second more =>
          rw [listAgrees, Bool.and_eq_true, agrees_iff, ih, List.map_cons, List.map_cons, List.cons.injEq]

/-- A marker set that is not emptied stays the same set for a comparison. -/
theorem compared_mapMarkers
    {change : List (Marker Empty) -> List (Marker Empty)}
    {comment : Comment}
    (stays : change comment.markers.toList ≠ []) :
    (comment.mapMarkers change).compared = comment.compared := by
  have sameId : (comment.markers.withMarkers (change comment.markers.toList)).id = comment.markers.id := by
    rw [Markers.withMarkers, if_neg stays]
    split <;> rfl
  rw [compared, mapMarkers, sameId]
  rfl

end Comment

namespace Space

variable {space : Space} {comments : List Comment}

theorem withComments_eq
    (space : Space)
    (comments : List Comment) :
    space.withComments comments =
      if comments.map Comment.compared = space.comments.map Comment.compared then space
      else build space.whitespace comments := by
  by_cases agree : comments.map Comment.compared = space.comments.map Comment.compared
  · rw [if_pos agree, withComments, if_pos ((Comment.listAgrees_iff ..).2 agree)]
  · rw [if_neg agree, withComments, if_neg (mt (Comment.listAgrees_iff ..).1 agree)]

/-- The old cell stays when the comments compare as the old ones, and for no others. -/
theorem withComments_eq_self_iff :
    space.withComments comments = space ↔ comments.map Comment.compared = space.comments.map Comment.compared := by
  rw [withComments_eq]
  refine ⟨fun same => ?_, fun agree => if_pos agree⟩
  split at same
  · next agree => exact agree
  · rw [<- same, comments_build]

/--
Replacing comments keeps the whitespace. The comments are then the given ones, kind, text, suffix and markers, exactly
when none of these differ while the comparison sees no difference; the space is the old cell exactly when it sees none.
Markers that are changed in sets that are not emptied are always lost.
-/
theorem replacedComments_areKept_iff
    (space : Space)
    (comments : List Comment) :
    (space.withComments comments).whitespace = space.whitespace ∧
      ((space.withComments comments).comments.map Comment.content = comments.map Comment.content ↔
        (comments.map Comment.compared = space.comments.map Comment.compared ->
          comments.map Comment.content = space.comments.map Comment.content)) ∧
        (space.withComments comments = space ↔
          comments.map Comment.compared = space.comments.map Comment.compared) ∧
          forall change, (forall comment, comment ∈ space.comments -> change comment.markers.toList ≠ []) ->
            space.withComments (space.comments.map (Comment.mapMarkers change)) = space := by
  refine ⟨?_, ?_, withComments_eq_self_iff, fun change stays => ?_⟩
  · rw [withComments_eq]
    split
    · rfl
    · exact whitespace_build ..
  · rw [withComments_eq]
    split
    · next agree => exact ⟨fun same _ => same.symm, fun same => (same agree).symm⟩
    · next differ => exact iff_of_true (by rw [comments_build]) fun agree => absurd agree differ
  · rw [withComments_eq, List.map_map]
    exact if_pos (List.map_congr_left fun comment member => Comment.compared_mapMarkers (stays comment member))

/-- A search that marks the only comment of a space has marked nothing. -/
theorem replacedComments_areKept_iff_ofMark :
    let space := format "// only".toList
    let marked := space.comments.map (Comment.mapMarkers (· ++ [.build (.searchResult none)]))
    marked.map Comment.content ≠ space.comments.map Comment.content ∧
      space.withComments marked = space := by
  intro space marked
  have stays : forall comment, comment ∈ space.comments ->
      comment.markers.toList ++ [.build (.searchResult none)] ≠ [] := fun _ _ => by simp
  exact ⟨by decide, (replacedComments_areKept_iff space marked).2.2.2 _ stays⟩

end Space
end Lossless
